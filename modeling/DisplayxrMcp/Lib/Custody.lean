/-
  Custody: resources that pass from holder to holder.

  A resource is taken up by one holder, handed on to holders that have none,
  worked on by its holder, and closed by its holder, who then has none. The log
  is what was done, and to what, oldest first. `Kept` says what this discipline
  buys: a resource has one holder until it is closed, it is closed once, and
  nothing is done to it afterwards. A program shows it by matching each of its
  steps with a step of this system.
-/
import Mathlib.Data.List.Pairwise
import DisplayxrMcp.Lib.Ledger

namespace Lib

/-- What is done to a resource. -/
inductive Deed (O : Type) where
  | op (o : O)
  | close
  deriving DecidableEq

def Deed.isClose {O : Type} : Deed O → Bool
  | .op _ => false
  | .close => true

/-- How often `c` was closed. -/
def closes {O : Type} (log : List (Deed O × Option Nat)) (c : Nat) : Nat :=
  log.countP fun e => e.1.isClose && decide (e.2 = some c)

/-- Nothing is done to a closed resource. -/
def Final {O : Type} (log : List (Deed O × Option Nat)) : Prop :=
  log.Pairwise fun e e' => e.1.isClose = true → e'.2 ≠ e.2

/-- Who holds what. Resources are numbered as they are taken up. -/
structure Custody (H O : Type) where
  taken : Nat
  holds : H → Option Nat
  log : List (Deed O × Option Nat)

namespace Custody

variable {H O : Type}

/-- One step. -/
inductive Step [DecidableEq H] : Custody H O → Custody H O → Prop where
  | skip {s : Custody H O} : Step s s
  | take {s : Custody H O} {h : H} (hh : s.holds h = none) :
      Step s { s with taken := s.taken + 1, holds := Function.update s.holds h (some s.taken) }
  | pass {s : Custody H O} {h h' : H} {c : Nat} (hc : s.holds h = some c)
      (hh : s.holds h' = none) :
      Step s { s with holds := Function.update (Function.update s.holds h none) h' (some c) }
  | use {s : Custody H O} {h : H} {c : Nat} (os : List O) (hc : s.holds h = some c) :
      Step s { s with log := s.log ++ os.map fun o => (.op o, some c) }
  | close {s : Custody H O} {h : H} {c : Nat} (hc : s.holds h = some c) :
      Step s { s with
        holds := Function.update s.holds h none
        log := s.log ++ [(.close, some c)] }

/-- The discipline has been kept. -/
structure Kept (s : Custody H O) : Prop where
  fresh : ∀ h c, s.holds h = some c → c < s.taken
  once : Once s.holds
  opened : ∀ h c, s.holds h = some c → closes s.log c = 0
  done : ∀ c < s.taken, (∃ h, s.holds h = some c) ∨ closes s.log c = 1
  known : ∀ e ∈ s.log, ∃ c < s.taken, e.2 = some c
  last : Final s.log

end Custody

/-! ## The log -/

section

variable {O : Type} {log : List (Deed O × Option Nat)}

theorem closes_append (log log' : List (Deed O × Option Nat)) (c : Nat) :
    closes (log ++ log') c = closes log c + closes log' c := List.countP_append ..

theorem closes_ops (os : List O) (c d : Nat) :
    closes (os.map fun o => ((.op o : Deed O), some c)) d = 0 := by
  unfold closes
  rw [List.countP_eq_zero]
  intro e he
  obtain ⟨o, -, rfl⟩ := List.mem_map.mp he
  simp [Deed.isClose]

theorem closes_close (c d : Nat) :
    closes [((.close : Deed O), some c)] d = if c = d then 1 else 0 := by
  simp [closes, Deed.isClose, List.countP_cons]

theorem closes_eq_zero {c : Nat} :
    closes log c = 0 ↔ ∀ e ∈ log, e.1.isClose = true → e.2 ≠ some c := by
  simp [closes, List.countP_eq_zero]

/-- What is done to a resource that was not closed, in an order that ends with the close. -/
theorem Final.append {log' : List (Deed O × Option Nat)} {c : Nat} (h : Final log)
    (h' : Final log') (hopen : closes log c = 0) (hc : ∀ e ∈ log', e.2 = some c) :
    Final (log ++ log') := by
  refine List.pairwise_append.mpr ⟨h, h', fun e he e' he' hclose => ?_⟩
  rw [hc e' he']
  exact (closes_eq_zero.mp hopen e he hclose).symm

theorem final_ops (os : List O) (c : Nat) :
    Final (os.map fun o => ((.op o : Deed O), some c)) := by
  refine List.pairwise_map.mpr (List.pairwise_of_forall fun o o' hclose => ?_)
  cases hclose

theorem final_close (c : Nat) : Final [((.close : Deed O), some c)] := List.pairwise_singleton _ _

end

/-! ## What a step keeps -/

namespace Custody

variable {H O : Type} {s s' : Custody H O}

theorem kept_empty : Kept (⟨0, fun _ => none, []⟩ : Custody H O) where
  fresh h c hc := by cases hc
  once p q k hp := by cases hp
  opened h c hc := by cases hc
  done c hc := absurd hc (Nat.not_lt_zero c)
  known e he := by cases he
  last := List.Pairwise.nil

theorem Kept.use (hk : Kept s) {h : H} {c : Nat} (os : List O) (hc : s.holds h = some c) :
    Kept { s with log := s.log ++ os.map fun o => (.op o, some c) } := by
  have hcount : ∀ d, closes (s.log ++ os.map fun o => ((.op o : Deed O), some c)) d =
      closes s.log d := by
    intro d
    rw [closes_append, closes_ops, Nat.add_zero]
  have htarget : ∀ e ∈ os.map fun o => ((.op o : Deed O), some c), e.2 = some c := by
    intro e he
    obtain ⟨o, -, rfl⟩ := List.mem_map.mp he
    rfl
  refine ⟨hk.fresh, hk.once, fun p d hp => ?_, fun d hd => ?_, fun e he => ?_, ?_⟩
  · exact (hcount d).trans (hk.opened p d hp)
  · exact (hk.done d hd).imp_right fun h => (hcount d).trans h
  · rcases List.mem_append.mp he with he | he
    · exact hk.known e he
    · exact ⟨c, hk.fresh h c hc, htarget e he⟩
  · exact hk.last.append (final_ops os c) (hk.opened h c hc) htarget

variable [DecidableEq H]

theorem Kept.take (hk : Kept s) (h : H) (hh : s.holds h = none) :
    Kept { s with taken := s.taken + 1, holds := Function.update s.holds h (some s.taken) } := by
  have hfrom : ∀ p c, Function.update s.holds h (some s.taken) p = some c →
      (p = h ∧ c = s.taken) ∨ s.holds p = some c := by
    intro p c hp
    by_cases hph : p = h
    · subst hph
      rw [Function.update_self] at hp
      exact Or.inl ⟨rfl, (Option.some.inj hp).symm⟩
    · rw [Function.update_of_ne hph] at hp
      exact Or.inr hp
  have hnew : ∀ p, s.holds p ≠ some s.taken := fun p hp => absurd (hk.fresh p _ hp) (by omega)
  have hnone : closes s.log s.taken = 0 := by
    rw [closes_eq_zero]
    intro e he _ hc
    obtain ⟨c, hlt, hec⟩ := hk.known e he
    have : c = s.taken := Option.some.inj (hec.symm.trans hc)
    omega
  refine ⟨fun p c hp => ?_, hk.once.put h s.taken hnew hfrom, fun p c hp => ?_, fun c hc => ?_,
    fun e he => ?_, hk.last⟩
  · rcases hfrom p c hp with ⟨-, rfl⟩ | hp
    · exact Nat.lt_succ_self _
    · exact Nat.lt_succ_of_lt (hk.fresh p c hp)
  · rcases hfrom p c hp with ⟨-, rfl⟩ | hp
    · exact hnone
    · exact hk.opened p c hp
  · rcases Nat.lt_succ_iff_lt_or_eq.mp hc with hlt | rfl
    · refine (hk.done c hlt).imp_left ?_
      rintro ⟨p, hp⟩
      have hph : p ≠ h := by
        rintro rfl
        rw [hh] at hp
        cases hp
      exact ⟨p, (Function.update_of_ne hph _ _).trans hp⟩
    · exact Or.inl ⟨h, Function.update_self ..⟩
  · obtain ⟨c, hlt, hc⟩ := hk.known e he
    exact ⟨c, Nat.lt_succ_of_lt hlt, hc⟩

theorem Kept.pass (hk : Kept s) {h h' : H} {c : Nat} (hc : s.holds h = some c)
    (hh : s.holds h' = none) :
    Kept { s with holds := Function.update (Function.update s.holds h none) h' (some c) } := by
  have hself : Function.update (Function.update s.holds h none) h' (some c) h' = some c :=
    Function.update_self ..
  have hfrom : ∀ p d, p ≠ h' → Function.update (Function.update s.holds h none) h' (some c) p =
      some d → p ≠ h ∧ s.holds p = some d := by
    intro p d hp hd
    rw [Function.update_of_ne hp] at hd
    by_cases hph : p = h
    · subst hph
      rw [Function.update_self] at hd
      cases hd
    · rw [Function.update_of_ne hph] at hd
      exact ⟨hph, hd⟩
  have hheld : ∀ p d, Function.update (Function.update s.holds h none) h' (some c) p = some d →
      ∃ q, s.holds q = some d := by
    intro p d hd
    by_cases hp : p = h'
    · subst hp
      rw [hself] at hd
      cases hd
      exact ⟨h, hc⟩
    · exact ⟨p, (hfrom p d hp hd).2⟩
  refine ⟨fun p d hd => ?_, ?_, fun p d hd => ?_, fun d hd => ?_, hk.known, hk.last⟩
  · obtain ⟨q, hq⟩ := hheld p d hd
    exact hk.fresh q d hq
  · refine hk.once.move h h' (fun d hd => ?_) hfrom
    cases hself.symm.trans hd
    exact hc
  · obtain ⟨q, hq⟩ := hheld p d hd
    exact hk.opened q d hq
  · refine (hk.done d hd).imp_left ?_
    rintro ⟨p, hp⟩
    by_cases hph : p = h
    · subst hph
      cases hc.symm.trans hp
      exact ⟨h', hself⟩
    · refine ⟨p, ?_⟩
      have hph' : p ≠ h' := by
        rintro rfl
        rw [hh] at hp
        cases hp
      show Function.update (Function.update s.holds h none) h' (some c) p = some d
      rw [Function.update_of_ne hph', Function.update_of_ne hph]
      exact hp

theorem Kept.close (hk : Kept s) {h : H} {c : Nat} (hc : s.holds h = some c) :
    Kept { s with
      holds := Function.update s.holds h none
      log := s.log ++ [(.close, some c)] } := by
  have hfrom : ∀ p d, Function.update s.holds h none p = some d → p ≠ h ∧ s.holds p = some d := by
    intro p d hd
    by_cases hph : p = h
    · subst hph
      rw [Function.update_self] at hd
      cases hd
    · rw [Function.update_of_ne hph] at hd
      exact ⟨hph, hd⟩
  have hcount : ∀ d, closes (s.log ++ [(.close, some c)]) d =
      closes s.log d + if c = d then 1 else 0 := by
    intro d
    rw [closes_append, closes_close]
  refine ⟨fun p d hd => hk.fresh p d (hfrom p d hd).2, hk.once.drop fun p d hd => (hfrom p d hd).2,
    fun p d hd => ?_, fun d hd => ?_, fun e he => ?_, ?_⟩
  · obtain ⟨hph, hp⟩ := hfrom p d hd
    have hne : c ≠ d := by
      rintro rfl
      exact hph (hk.once p h c hp hc)
    rw [hcount, if_neg hne]
    exact hk.opened p d hp
  · by_cases hcd : c = d
    · subst hcd
      refine Or.inr ?_
      rw [hcount, if_pos rfl, hk.opened h c hc]
    · rcases hk.done d hd with ⟨p, hp⟩ | hone
      · have hph : p ≠ h := by
          rintro rfl
          exact hcd (Option.some.inj (hc.symm.trans hp))
        exact Or.inl ⟨p, (Function.update_of_ne hph _ _).trans hp⟩
      · refine Or.inr ?_
        rw [hcount, if_neg hcd]
        exact hone
  · rcases List.mem_append.mp he with he | he
    · exact hk.known e he
    · rw [List.mem_singleton.mp he]
      exact ⟨c, hk.fresh h c hc, rfl⟩
  · refine hk.last.append (final_close c) (hk.opened h c hc) fun e he => ?_
    rw [List.mem_singleton.mp he]

theorem Kept.step (hk : Kept s) (hst : Step s s') : Kept s' := by
  cases hst with
  | skip => exact hk
  | take hh => exact hk.take _ hh
  | pass hc hh => exact hk.pass hc hh
  | use os hc => exact hk.use os hc
  | close hc => exact hk.close hc

end Custody

end Lib
