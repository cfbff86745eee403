import Mathlib.Data.List.Basic
import Mathlib.Logic.Function.Basic
import Mathlib.Tactic.TypeStar

/-!
# Doubly linked lists

`DList` is a list as memory holds it: two links for every address, and the addresses of the first
and the last node.  `Represents d l` says that the `next` links from the head run through `l`, that
the `prev` links from the tail run through `l` backwards, and that both end there.  Such a list can
be read in one way only (`Represents.unique`), and stays one when a node is put in front
(`Represents.pushFront`) and when the last one is taken away (`Represents.popBack`).
-/

namespace ReactorServer.Lib.DoublyLinked

variable {α : Type*}

/-! ### Chains -/

/-- The links run through the addresses, and the last one leads to `e`. -/
def Links (f : α → Option α) : List α → Option α → Prop
  | [], _ => True
  | a :: l, e => f a = l.head?.or e ∧ Links f l e

variable {f g : α → Option α} {l l' m : List α} {a b : α} {e e' : Option α}

theorem links_append : Links f (l ++ m) e ↔ Links f l (m.head?.or e) ∧ Links f m e := by
  induction l with
  | nil => simp [Links]
  | cons a l ih =>
    simp only [List.cons_append, Links, ih, and_assoc]
    have hhead : (l ++ m).head?.or e = l.head?.or (m.head?.or e) := by
      rw [List.head?_append, Option.or_assoc]
    rw [hhead]

theorem links_snoc : Links f (l ++ [a]) e ↔ Links f l (some a) ∧ f a = e := by
  rw [links_append]
  simp [Links]

theorem Links.congr (h : Links f l e) (hfg : ∀ a ∈ l, g a = f a) : Links g l e := by
  induction l with
  | nil => trivial
  | cons a l ih =>
    refine ⟨?_, ih h.2 fun b hb => hfg b (List.mem_cons_of_mem _ hb)⟩
    rw [hfg a List.mem_cons_self]
    exact h.1

/-- Two chains from one address that end are the same. -/
theorem Links.unique (h : Links f l none) (h' : Links f l' none) (hhead : l.head? = l'.head?) :
    l = l' := by
  induction l generalizing l' with
  | nil => exact (List.head?_eq_none_iff.mp hhead.symm).symm
  | cons a l ih =>
    rcases l' with _ | ⟨b, l'⟩
    · cases hhead
    obtain rfl : a = b := Option.some.inj hhead
    have hnext : l.head? = l'.head? := by
      have h1 := h.1
      rw [h'.1] at h1
      simpa using h1.symm
    rw [ih h.2 h'.2 hnext]

/-! ### Lists in memory -/

structure DList (α : Type*) where
  next : α → Option α
  prev : α → Option α
  head : Option α
  tail : Option α

variable {d : DList α}

/-- **The list is well formed**, and its addresses are these, from head to tail. -/
structure Represents (d : DList α) (l : List α) : Prop where
  head : d.head = l.head?
  tail : d.tail = l.getLast?
  next : Links d.next l none
  prev : Links d.prev l.reverse none
  nodup : l.Nodup

theorem Represents.unique (h : Represents d l) (h' : Represents d l') : l = l' :=
  h.next.unique h'.next (h.head.symm.trans h'.head)

theorem represents_nil (f g : α → Option α) : Represents ⟨f, g, none, none⟩ [] :=
  ⟨rfl, rfl, trivial, trivial, List.nodup_nil⟩

theorem Represents.head_eq_none (h : Represents d l) : d.head = none ↔ l = [] := by
  rw [h.head, List.head?_eq_none_iff]

theorem Represents.tail_eq_none (h : Represents d l) : d.tail = none ↔ l = [] := by
  rw [h.tail, List.getLast?_eq_none_iff]

/-- Only the links of its own nodes matter. -/
theorem Represents.congr {d' : DList α} (h : Represents d l) (hhead : d'.head = d.head)
    (htail : d'.tail = d.tail) (hnext : ∀ a ∈ l, d'.next a = d.next a)
    (hprev : ∀ a ∈ l, d'.prev a = d.prev a) : Represents d' l where
  head := hhead.trans h.head
  tail := htail.trans h.tail
  next := h.next.congr hnext
  prev := h.prev.congr fun a ha => hprev a (List.mem_reverse.mp ha)
  nodup := h.nodup

variable [DecidableEq α]

/-- Put a node in front. -/
def pushFront (a : α) (d : DList α) : DList α where
  next := Function.update d.next a d.head
  prev :=
    match d.head with
    | none => Function.update d.prev a none
    | some h => Function.update (Function.update d.prev a none) h (some a)
  head := some a
  tail := d.tail.or (some a)

/-- Take the last node away. -/
def popBack (d : DList α) : DList α :=
  match d.tail with
  | none => d
  | some t =>
    match d.prev t with
    | none => { d with head := none, tail := none }
    | some p => { d with next := Function.update d.next p none, tail := some p }

theorem Represents.pushFront (h : Represents d l) (ha : a ∉ l) :
    Represents (pushFront a d) (a :: l) where
  head := rfl
  tail := by
    show d.tail.or (some a) = _
    rw [h.tail, List.getLast?_cons]
    cases l.getLast? <;> rfl
  next := by
    refine ⟨?_, h.next.congr fun b hb => ?_⟩
    · show Function.update d.next a d.head a = _
      rw [Function.update_self, h.head, Option.or_none]
    · exact Function.update_of_ne (fun hba : b = a => ha (hba ▸ hb)) _ _
  prev := by
    rw [List.reverse_cons, links_snoc]
    rcases l with _ | ⟨b, l⟩
    · have hhead : d.head = none := h.head
      refine ⟨trivial, ?_⟩
      simp [DoublyLinked.pushFront, hhead]
    · have hhead : d.head = some b := h.head
      have hab : a ≠ b := fun hab => ha (hab ▸ List.mem_cons_self)
      have hprev := h.prev
      rw [List.reverse_cons, links_snoc] at hprev ⊢
      have hb : b ∉ l := (List.nodup_cons.mp h.nodup).1
      simp only [DoublyLinked.pushFront, hhead]
      refine ⟨⟨hprev.1.congr fun x hx => ?_, Function.update_self _ _ _⟩, ?_⟩
      · have hxl := List.mem_reverse.mp hx
        have hxb : x ≠ b := fun hxb => hb (hxb ▸ hxl)
        have hxa : x ≠ a := fun hxa => ha (hxa ▸ List.mem_cons_of_mem _ hxl)
        rw [Function.update_of_ne hxb, Function.update_of_ne hxa]
      · rw [Function.update_of_ne hab, Function.update_self]
  nodup := List.nodup_cons.mpr ⟨ha, h.nodup⟩

theorem Represents.popBack (h : Represents d (l ++ [a])) : Represents (popBack d) l := by
  have htail : d.tail = some a := by
    rw [h.tail, List.getLast?_concat]
  have hprev := h.prev
  rw [List.reverse_append, List.reverse_singleton, List.singleton_append] at hprev
  have hprev_a : d.prev a = l.getLast? := by
    rw [hprev.1, Option.or_none, List.head?_reverse]
  have hnodup := (List.nodup_append.mp h.nodup).1
  unfold DoublyLinked.popBack
  rw [htail]
  dsimp only
  rcases List.eq_nil_or_concat l with rfl | ⟨l, b, rfl⟩
  · rw [hprev_a]
    exact ⟨rfl, rfl, trivial, trivial, List.nodup_nil⟩
  · have hb : d.prev a = some b := by
      rw [hprev_a, List.concat_eq_append, List.getLast?_concat]
    rw [List.concat_eq_append] at hprev hnodup ⊢
    rw [hb]
    have hnext := h.next
    rw [List.concat_eq_append, links_snoc, links_snoc] at hnext
    have hbl : b ∉ l := by
      have := List.nodup_append.mp hnodup
      exact fun hmem => this.2.2 b hmem b List.mem_cons_self rfl
    refine ⟨?_, (List.getLast?_concat ..).symm, links_snoc.mpr ⟨?_, ?_⟩, hprev.2, hnodup⟩
    · show d.head = _
      rw [h.head]
      simp
    · refine hnext.1.1.congr fun x hx => ?_
      exact Function.update_of_ne (fun hxb : x = b => hbl (hxb ▸ hx)) _ _
    · exact Function.update_self _ _ _

end ReactorServer.Lib.DoublyLinked
