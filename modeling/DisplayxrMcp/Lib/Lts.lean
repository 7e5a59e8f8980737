/-
  Labelled transition systems: runs, invariants, conditional reachability.

  A run records the pre-state and the label of every step, oldest first, so a
  condition on steps ("the table is not full when a slot is asked for") is a
  predicate on the entries of the record. `ReachWhen M ok` is reachability by a
  run all of whose steps meet `ok`; plain reachability is `Reach M`.

  Nothing here names a program. The induction over runs is done once, in
  `Run.invariant`; every safety result downstream is a step lemma handed to it.
-/
import Mathlib.Data.List.Basic
import Mathlib.Tactic.Common

namespace Lts

universe u v

/-- A labelled transition system over states `σ` and labels `α`. -/
structure System (σ : Type u) (α : Type v) where
  init : σ → Prop
  step : σ → α → σ → Prop

variable {σ : Type u} {α : Type v} {M : System σ α}

/-- `Run M s tr t`: the steps recorded in `tr` lead from `s` to `t`. -/
inductive Run (M : System σ α) (s : σ) : List (σ × α) → σ → Prop where
  | refl : Run M s [] s
  | tail {tr : List (σ × α)} {t : σ} {e : α} {u : σ} :
      Run M s tr t → M.step t e u → Run M s (tr ++ [(t, e)]) u

/-- Every recorded step meets the condition `ok` on its pre-state and label. -/
def Meets (ok : σ → α → Prop) (tr : List (σ × α)) : Prop := ∀ p ∈ tr, ok p.1 p.2

instance (ok : σ → α → Prop) [∀ s e, Decidable (ok s e)] (tr : List (σ × α)) :
    Decidable (Meets ok tr) :=
  inferInstanceAs (Decidable (∀ p ∈ tr, ok p.1 p.2))

theorem meets_nil (ok : σ → α → Prop) : Meets ok [] := by
  intro p hp
  cases hp

theorem meets_append {ok : σ → α → Prop} {tr tr' : List (σ × α)} :
    Meets ok (tr ++ tr') ↔ Meets ok tr ∧ Meets ok tr' := by
  simp only [Meets, List.mem_append]
  constructor
  · intro h
    exact ⟨fun p hp => h p (Or.inl hp), fun p hp => h p (Or.inr hp)⟩
  · rintro ⟨h, h'⟩ p (hp | hp)
    · exact h p hp
    · exact h' p hp

theorem meets_snoc {ok : σ → α → Prop} {tr : List (σ × α)} {s : σ} {e : α} :
    Meets ok (tr ++ [(s, e)]) ↔ Meets ok tr ∧ ok s e := by
  rw [meets_append]
  simp [Meets]

theorem Meets.mono {ok ok' : σ → α → Prop} (himp : ∀ s e, ok s e → ok' s e)
    {tr : List (σ × α)} (h : Meets ok tr) : Meets ok' tr :=
  fun p hp => himp p.1 p.2 (h p hp)

theorem Run.single {s t : σ} {e : α} (h : M.step s e t) : Run M s [(s, e)] t :=
  Run.tail Run.refl h

theorem Run.trans {s t u : σ} {tr tr' : List (σ × α)} (h : Run M s tr t)
    (h' : Run M t tr' u) : Run M s (tr ++ tr') u := by
  induction h' with
  | refl => simpa using h
  | tail _ hstep ih =>
      rw [← List.append_assoc]
      exact Run.tail ih hstep

/-- A run up to one of its steps, the step, and the run from there. -/
theorem Run.split {s t u : σ} {e : α} {tr₁ tr₂ : List (σ × α)}
    (h : Run M s (tr₁ ++ (u, e) :: tr₂) t) :
    Run M s tr₁ u ∧ ∃ v, M.step u e v ∧ Run M v tr₂ t := by
  generalize htr : tr₁ ++ (u, e) :: tr₂ = tr at h
  induction h generalizing tr₂ with
  | refl => exact absurd htr (by simp)
  | @tail tr t' e' v hrun hst ih =>
      rcases List.eq_nil_or_concat tr₂ with rfl | ⟨tr₃, x, rfl⟩
      · obtain ⟨rfl, hlast⟩ := List.append_inj' htr rfl
        obtain ⟨rfl, rfl⟩ := Prod.mk.inj (List.singleton_inj.mp hlast)
        exact ⟨hrun, v, hst, Run.refl⟩
      · rw [List.concat_eq_append, ← List.cons_append, ← List.append_assoc] at htr
        obtain ⟨hfront, hlast⟩ := List.append_inj' htr rfl
        cases List.singleton_inj.mp hlast
        obtain ⟨hrun₁, w, hstw, hrun₂⟩ := ih hfront
        rw [List.concat_eq_append]
        exact ⟨hrun₁, w, hstw, hrun₂.tail hst⟩

/-- A property of every step of a run, in terms of the run before it. -/
def Throughout (P : List (σ × α) → σ → α → Prop) (tr : List (σ × α)) : Prop :=
  ∀ tr₁ u e tr₂, tr = tr₁ ++ (u, e) :: tr₂ → P tr₁ u e

/-- The induction over a run: what every admissible step preserves, the run preserves. -/
theorem Run.invariant {ok : σ → α → Prop} {I : σ → Prop}
    (hstep : ∀ s e t, ok s e → I s → M.step s e t → I t)
    {s t : σ} {tr : List (σ × α)} (h : Run M s tr t) (hok : Meets ok tr) (hs : I s) : I t := by
  induction h with
  | refl => exact hs
  | tail _ hst ih =>
      obtain ⟨hm, he⟩ := meets_snoc.mp hok
      exact hstep _ _ _ he (ih hm) hst

/-- `Run.invariant` for a property that every step preserves. -/
theorem Run.preserves {I : σ → Prop} (hstep : ∀ s e t, I s → M.step s e t → I t) {s t : σ}
    {tr : List (σ × α)} (h : Run M s tr t) (hs : I s) : I t := by
  have hall : Meets (fun _ _ => True) tr := fun _ _ => trivial
  exact h.invariant (fun s e t _ => hstep s e t) hall hs

/-- As `Run.invariant`, for a property of the state and the record of the run so far. -/
theorem Run.history {ok : σ → α → Prop} {I : List (σ × α) → σ → Prop} {s : σ} (hstart : I [] s)
    (hstep : ∀ tr t e u, Run M s tr t → Meets ok tr → ok t e → I tr t → M.step t e u →
      I (tr ++ [(t, e)]) u)
    {t : σ} {tr : List (σ × α)} (h : Run M s tr t) (hok : Meets ok tr) : I tr t := by
  induction h with
  | refl => exact hstart
  | tail hrun hst ih =>
      obtain ⟨hm, he⟩ := meets_snoc.mp hok
      exact hstep _ _ _ _ hrun hm he (ih hm) hst

/-- Reachable by a run from an initial state, every step of which meets `ok`. -/
def ReachWhen (M : System σ α) (ok : σ → α → Prop) (t : σ) : Prop :=
  ∃ s tr, M.init s ∧ Run M s tr t ∧ Meets ok tr

/-- Reachable by some run from an initial state. -/
def Reach (M : System σ α) (t : σ) : Prop := ReachWhen M (fun _ _ => True) t

theorem ReachWhen.init {ok : σ → α → Prop} {s : σ} (h : M.init s) : ReachWhen M ok s :=
  ⟨s, [], h, Run.refl, meets_nil ok⟩

theorem ReachWhen.step {ok : σ → α → Prop} {s t : σ} {e : α} (h : ReachWhen M ok s)
    (hok : ok s e) (hst : M.step s e t) : ReachWhen M ok t := by
  obtain ⟨s₀, tr, hi, hr, hm⟩ := h
  exact ⟨s₀, tr ++ [(s, e)], hi, hr.tail hst, meets_snoc.mpr ⟨hm, hok⟩⟩

theorem ReachWhen.run {ok : σ → α → Prop} {s t : σ} {tr : List (σ × α)}
    (h : ReachWhen M ok s) (hr : Run M s tr t) (hm : Meets ok tr) : ReachWhen M ok t := by
  obtain ⟨s₀, tr₀, hi, hr₀, hm₀⟩ := h
  exact ⟨s₀, tr₀ ++ tr, hi, hr₀.trans hr, meets_append.mpr ⟨hm₀, hm⟩⟩

theorem ReachWhen.mono {ok ok' : σ → α → Prop} (himp : ∀ s e, ok s e → ok' s e) {t : σ}
    (h : ReachWhen M ok t) : ReachWhen M ok' t := by
  obtain ⟨s, tr, hi, hr, hm⟩ := h
  exact ⟨s, tr, hi, hr, hm.mono himp⟩

theorem ReachWhen.reach {ok : σ → α → Prop} {t : σ} (h : ReachWhen M ok t) : Reach M t :=
  h.mono fun _ _ _ => trivial

/-- An invariant of the initial states and of every admissible step holds wherever an
    admissible run leads. -/
theorem ReachWhen.invariant {ok : σ → α → Prop} {I : σ → Prop}
    (hinit : ∀ s, M.init s → I s)
    (hstep : ∀ s e t, ok s e → I s → M.step s e t → I t)
    {t : σ} (h : ReachWhen M ok t) : I t := by
  obtain ⟨s, tr, hi, hr, hm⟩ := h
  exact hr.invariant hstep hm (hinit s hi)

/-- As `ReachWhen.invariant`, on top of an invariant `J` that is already known. -/
theorem ReachWhen.invariant_of {ok : σ → α → Prop} {I J : σ → Prop}
    (hJ : ∀ s, ReachWhen M ok s → J s) (hinit : ∀ s, M.init s → I s)
    (hstep : ∀ s e t, ok s e → J s → I s → M.step s e t → I t)
    {t : σ} (h : ReachWhen M ok t) : I t := by
  obtain ⟨s, tr, hi, hr, hm⟩ := h
  have key : ReachWhen M ok t ∧ I t := by
    induction hr with
    | refl => exact ⟨ReachWhen.init hi, hinit _ hi⟩
    | tail _ hst ih =>
        obtain ⟨hm', he⟩ := meets_snoc.mp hm
        obtain ⟨hreach, hI⟩ := ih hm'
        exact ⟨hreach.step he hst, hstep _ _ _ he (hJ _ hreach) hI hst⟩
  exact key.2

/-! ## Runs of an executable system -/

/-- Follow labels with a partial step function. -/
def follow (next : σ → α → Option σ) (s : σ) : List α → Option σ
  | [] => some s
  | e :: es => (next s e).bind fun t => follow next t es

/-- The record of following labels. -/
def record (next : σ → α → Option σ) (s : σ) : List α → List (σ × α)
  | [] => []
  | e :: es => (s, e) :: (match next s e with
      | some t => record next t es
      | none => [])

theorem mem_record {next : σ → α → Option σ} :
    ∀ (es : List α) {s : σ} {p : σ × α}, p ∈ record next s es → p.2 ∈ es
  | [], _, _, h => by cases h
  | e :: es, s, p, h => by
      rcases List.mem_cons.mp h with rfl | h
      · exact List.mem_cons_self
      · cases hn : next s e with
        | none => rw [hn] at h; cases h
        | some t =>
            rw [hn] at h
            exact List.mem_cons_of_mem _ (mem_record es h)

/-- A step function that only takes steps of `M` follows runs of `M`. -/
theorem run_of_follow {next : σ → α → Option σ}
    (hnext : ∀ s e t, next s e = some t → M.step s e t) :
    ∀ (es : List α) {s t : σ}, follow next s es = some t → Run M s (record next s es) t
  | [], s, t, h => by
      cases h
      exact Run.refl
  | e :: es, s, t, h => by
      obtain ⟨u, hu, ht⟩ := Option.bind_eq_some_iff.mp h
      have hrun := (Run.single (hnext s e u hu)).trans (run_of_follow hnext es ht)
      simpa [record, hu] using hrun

end Lts
