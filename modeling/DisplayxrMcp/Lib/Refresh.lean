/-
  A copy of a value that changes at its source.

  Source and reader share one line, in order. The source announces its changes
  on the line, and answers a request by a snapshot of the value, which it writes
  later. The reader asks again after every announcement and records every
  snapshot. `Link` is the state of both ends, `Coherent` the invariant: the
  snapshots on their way are in the order of their age, and the youngest is the
  value, unless something will still make the reader ask. Each step of either
  end has its rule; `Coherent.settled` is the result when nothing is on its way.
-/
import Mathlib.Data.List.Basic
import Mathlib.Tactic.Common

namespace Lib

variable {α : Type*}

/-- How a reader records a snapshot over the copy it has. `Before x v` says that the value can
    go from `x` to `v`. -/
structure Recording (α : Type*) where
  Before : α → α → Prop
  record : α → α → α
  refl : ∀ x, Before x x
  trans : ∀ x y z, Before x y → Before y z → Before x z
  record_eq : ∀ x v, Before x v → record x v = v

/-- What the source writes on the line. -/
inductive Note (α : Type*) where
  | changed
  | reply (v : α)

def Note.value : Note α → Option α
  | .changed => none
  | .reply v => some v

@[simp] theorem Note.value_changed : (Note.changed : Note α).value = none := rfl
@[simp] theorem Note.value_reply (v : α) : (Note.reply v).value = some v := rfl

/-- The source's value, the changes it has not announced, the requests it has not taken up and
    the snapshot it is about to write; the line; whether the reader is about to ask, the reply
    it has read, and its copy. -/
structure Link (α : Type*) where
  current : α
  owed : Nat
  asked : Nat
  taken : Option α
  line : List (Note α)
  due : Bool
  held : Option α
  copy : Option α

/-- The copy and the snapshots on their way to it, oldest first. -/
def Link.chain (l : Link α) : List α :=
  l.copy.toList ++ l.held.toList ++ l.line.filterMap Note.value ++ l.taken.toList

/-- Something will still make the reader ask, or has made it. -/
def Link.Alerted (l : Link α) : Prop :=
  0 < l.owed ∨ 0 < l.asked ∨ l.due = true ∨ Note.changed ∈ l.line

/-- No copy yet, or the youngest snapshot is the value. -/
def Link.Fresh (l : Link α) : Prop :=
  l.copy = none ∨ l.chain.getLast? = some l.current

structure Link.Coherent (R : Recording α) (l : Link α) : Prop where
  sorted : l.chain.Pairwise R.Before
  recent : ∀ x ∈ l.chain, R.Before x l.current
  fresh : l.Alerted ∨ l.Fresh

namespace Link.Coherent

variable {R : Recording α} {l : Link α}

/-- Nothing is lost on the way: the same snapshots in the same order, and no alert is dropped. -/
theorem move (h : l.Coherent R) {l' : Link α} (hc : l'.chain = l.chain)
    (hcur : l'.current = l.current) (hcopy : l'.copy = l.copy) (ha : l.Alerted → l'.Alerted) :
    l'.Coherent R := by
  refine ⟨hc ▸ h.sorted, fun x hx => ?_, ?_⟩
  · rw [hcur]
    exact h.recent x (hc ▸ hx)
  · rcases h.fresh with hal | hnone | hlast
    · exact Or.inl (ha hal)
    · exact Or.inr (Or.inl (hcopy.trans hnone))
    · refine Or.inr (Or.inr ?_)
      rw [hc, hcur]
      exact hlast

/-- The value changes. -/
theorem change (h : l.Coherent R) {v : α} (hv : R.Before l.current v) :
    Coherent R { l with current := v, owed := l.owed + 1 } :=
  ⟨h.sorted, fun x hx => R.trans x l.current v (h.recent x hx) hv, Or.inl (Or.inl (Nat.succ_pos _))⟩

/-- A change is announced on the line. -/
theorem announce (h : l.Coherent R) (n : Nat) :
    Coherent R { l with owed := n, line := l.line ++ [.changed] } := by
  have hc : ({ l with owed := n, line := l.line ++ [.changed] } : Link α).chain = l.chain := by
    simp [chain]
  refine h.move hc rfl rfl fun _ => Or.inr (Or.inr (Or.inr ?_))
  exact List.mem_append_right _ List.mem_cons_self

/-- An announcement is lost: another change is still to be announced, or nothing is stale. -/
theorem miss (h : l.Coherent R) {n : Nat} (hn : 0 < n ∨ l.Fresh) :
    Coherent R { l with owed := n } := by
  refine ⟨h.sorted, h.recent, ?_⟩
  rcases hn with hn | hn
  · exact Or.inl (Or.inl hn)
  · exact Or.inr hn

/-- The reader asks. -/
theorem ask (h : l.Coherent R) : Coherent R { l with due := false, asked := l.asked + 1 } :=
  ⟨h.sorted, h.recent, Or.inl (Or.inr (Or.inl (Nat.succ_pos _)))⟩

/-- The source takes a snapshot. -/
theorem snapshot (h : l.Coherent R) (n : Nat) (ht : l.taken = none) :
    Coherent R { l with asked := n, taken := some l.current } := by
  have hc : ({ l with asked := n, taken := some l.current } : Link α).chain =
      l.chain ++ [l.current] := by
    simp [chain, ht]
  refine ⟨?_, ?_, Or.inr (Or.inr ?_)⟩
  · rw [hc, List.pairwise_append]
    refine ⟨h.sorted, List.pairwise_singleton _ _, fun x hx y hy => ?_⟩
    rw [List.mem_singleton.mp hy]
    exact h.recent x hx
  · intro x hx
    rw [hc] at hx
    rcases List.mem_append.mp hx with hx | hx
    · exact h.recent x hx
    · rw [List.mem_singleton.mp hx]
      exact R.refl _
  · rw [hc, List.getLast?_concat]

/-- The source writes its snapshot. -/
theorem write (h : l.Coherent R) {v : α} (ht : l.taken = some v) :
    Coherent R { l with taken := none, line := l.line ++ [.reply v] } := by
  have hc : ({ l with taken := none, line := l.line ++ [.reply v] } : Link α).chain = l.chain := by
    simp [chain, ht]
  refine h.move hc rfl rfl ?_
  rintro (ho | ha | hd | hm)
  · exact Or.inl ho
  · exact Or.inr (Or.inl ha)
  · exact Or.inr (Or.inr (Or.inl hd))
  · exact Or.inr (Or.inr (Or.inr (List.mem_append_left _ hm)))

/-- The reader reads an announcement. -/
theorem hear (h : l.Coherent R) {rest : List (Note α)} (hl : l.line = .changed :: rest) :
    Coherent R { l with line := rest, due := true } := by
  have hc : ({ l with line := rest, due := true } : Link α).chain = l.chain := by
    simp [chain, hl, List.filterMap_cons]
  exact h.move hc rfl rfl fun _ => Or.inr (Or.inr (Or.inl rfl))

/-- The reader reads a reply. -/
theorem get (h : l.Coherent R) {v : α} {rest : List (Note α)} (hl : l.line = .reply v :: rest)
    (hh : l.held = none) : Coherent R { l with line := rest, held := some v } := by
  have hc : ({ l with line := rest, held := some v } : Link α).chain = l.chain := by
    simp [chain, hl, hh]
  refine h.move hc rfl rfl ?_
  rintro (ho | ha | hd | hm)
  · exact Or.inl ho
  · exact Or.inr (Or.inl ha)
  · exact Or.inr (Or.inr (Or.inl hd))
  · rw [hl] at hm
    rcases List.mem_cons.mp hm with he | hm
    · cases he
    · exact Or.inr (Or.inr (Or.inr hm))

/-- The reader records the reply it has read. -/
theorem apply (h : l.Coherent R) {x v : α} (hx : l.copy = some x) (hv : l.held = some v) :
    Coherent R { l with held := none, copy := some (R.record x v) } := by
  have hold : l.chain = x :: v :: (l.line.filterMap Note.value ++ l.taken.toList) := by
    simp [chain, hx, hv]
  have hsorted := h.sorted
  rw [hold] at hsorted
  obtain ⟨hfirst, hrest⟩ := List.pairwise_cons.mp hsorted
  have hrec : R.record x v = v := R.record_eq x v (hfirst v List.mem_cons_self)
  have hc : ({ l with held := none, copy := some (R.record x v) } : Link α).chain =
      v :: (l.line.filterMap Note.value ++ l.taken.toList) := by
    simp [chain, hrec]
  refine ⟨hc ▸ hrest, fun y hy => h.recent y ?_, ?_⟩
  · rw [hc] at hy
    rw [hold]
    exact List.mem_cons_of_mem _ hy
  · rcases h.fresh with ha | hf | hf
    · exact Or.inl ha
    · rw [hx] at hf
      cases hf
    · rw [hold, List.getLast?_cons_cons] at hf
      exact Or.inr (Or.inr (hc ▸ hf))

/-- The first copy is made, of the value as it is. -/
theorem begin (hh : l.held = none) (ht : l.taken = none)
    (hl : l.line.filterMap Note.value = []) : Coherent R { l with copy := some l.current } := by
  have hch : ({ l with copy := some l.current } : Link α).chain = [l.current] := by
    simp [chain, hh, ht, hl]
  refine ⟨hch ▸ List.pairwise_singleton _ _, fun x hx => ?_, Or.inr (Or.inr (by rw [hch]; rfl))⟩
  rw [hch] at hx
  rw [List.mem_singleton.mp hx]
  exact R.refl _

/-- With nothing on its way the copy is the value. -/
theorem settled (h : l.Coherent R) {x : α} (hx : l.copy = some x) (ho : l.owed = 0)
    (ha : l.asked = 0) (ht : l.taken = none) (hl : l.line = []) (hd : l.due = false)
    (hh : l.held = none) : x = l.current := by
  rcases h.fresh with (ho' | ha' | hd' | hm) | hf | hf
  · omega
  · omega
  · rw [hd] at hd'
    cases hd'
  · rw [hl] at hm
    cases hm
  · rw [hx] at hf
    cases hf
  · have hc : l.chain = [x] := by simp [chain, hx, hh, hl, ht]
    rw [hc] at hf
    exact Option.some.inj hf

end Link.Coherent

end Lib
