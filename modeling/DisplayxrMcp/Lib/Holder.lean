/-
  The lock of a split system, and the peers that stop reading.

  A thread waits for a peer while it writes on an open connection whose buffer is
  full. `Ready` asks that a write under the lock is begun to a stalled peer only if
  the whole frame fits, and that a peer stalls in the middle of such a write only if
  the rest fits. Then the holder of the lock never waits for a stalled peer
  (`Roomy.not_waiting`), and it can give the lock back by its own steps, with reads
  of peers that are not stalled (`unlock`).
-/
import DisplayxrMcp.Lib.Split

namespace Lts

variable {σ α τ γ β : Type}

/-- The job of the thread that holds the lock. -/
def Split.holding (s : Split σ α τ γ β) : Option (Job α γ β) := s.lock.bind s.jobs

/-- Thread `t` has to put more on the open connection `c`, and there is no room. -/
def Waiting (s : Split σ α τ γ β) (t : τ) (c : γ) : Prop :=
  ∃ j, s.jobs t = some j ∧ j.write.conn = c ∧ j.left ≠ [] ∧ (s.wires c).shut = false ∧
    (s.wires c).room = 0

/-- A stalled peer has room for what is written to it under the lock. -/
def Ready (W : Writers σ α τ γ β) (s : Split σ α τ γ β) : SplitAct α τ γ → Prop
  | .begin a => ∀ w ∈ W.write s.base a, W.locks s.base a = true →
      (s.wires w.conn).stalled = true → w.frame.length ≤ (s.wires w.conn).room
  | .stall c => ∀ j ∈ s.holding, j.write.conn = c → j.rest.length ≤ (s.wires c).room
  | _ => True

instance [DecidableEq γ] (W : Writers σ α τ γ β) (s : Split σ α τ γ β) (e : SplitAct α τ γ) :
    Decidable (Ready W s e) :=
  match e with
  | .begin a => inferInstanceAs (Decidable (∀ w ∈ W.write s.base a, W.locks s.base a = true →
      (s.wires w.conn).stalled = true → w.frame.length ≤ (s.wires w.conn).room))
  | .stall c => inferInstanceAs (Decidable (∀ j ∈ s.holding, j.write.conn = c →
      j.rest.length ≤ (s.wires c).room))
  | .plain _ | .put _ _ | .next _ | .finish _ | .fail _ | .drain _ _ | .shut _ =>
      inferInstanceAs (Decidable True)

/-- What the holder of the lock still has to put to a stalled peer fits. -/
def Roomy (s : Split σ α τ γ β) : Prop :=
  ∀ j ∈ s.holding, (s.wires j.write.conn).stalled = true →
    j.rest.length ≤ (s.wires j.write.conn).room

theorem roomy_init (base : σ) (room : γ → Nat) :
    Roomy (Split.init base room : Split σ α τ γ β) := by
  intro j hj
  cases hj

theorem holding_some {s : Split σ α τ γ β} {j : Job α γ β} :
    j ∈ s.holding ↔ ∃ t, s.lock = some t ∧ s.jobs t = some j := by
  unfold Split.holding
  rw [Option.mem_def, Option.bind_eq_some_iff]

theorem Roomy.not_waiting {s : Split σ α τ γ β} (h : Roomy s) {t : τ} {c : γ}
    (ht : s.lock = some t) (hc : (s.wires c).stalled = true) : ¬ Waiting s t c := by
  rintro ⟨j, hj, rfl, hleft, -, hroom⟩
  have hle := h j (holding_some.mpr ⟨t, ht, hj⟩) hc
  have hpos := List.length_pos_of_ne_nil hleft
  unfold Job.rest at hle
  rw [List.length_append] at hle
  omega

/-- A connection changes in a way that does not matter to the holder of the lock. -/
theorem Roomy.setWire [DecidableEq γ] {s : Split σ α τ γ β} (h : Roomy s) {c : γ} {w : Wire β}
    (hw : ∀ j ∈ s.holding, j.write.conn = c → w.stalled = true → j.rest.length ≤ w.room) :
    Roomy (s.setWire c w) := by
  intro j hj hs
  have hj' : j ∈ s.holding := hj
  by_cases hc : j.write.conn = c
  · rw [hc, Split.setWire_same] at hs ⊢
    exact hw j hj' hc hs
  · rw [Split.setWire_ne _ _ hc] at hs ⊢
    exact h j hj' hs

/-- A thread without a job holds nothing. -/
theorem Roomy.released [DecidableEq τ] {s : Split σ α τ γ β} (h : Roomy s) (t : τ) (base : σ) :
    Roomy (({ s with base := base }.setJob t none).release t) := by
  intro j hj
  obtain ⟨u, hu, hju⟩ := holding_some.mp hj
  have hu' : (if s.lock = some t then none else s.lock) = some u := hu
  split at hu'
  · cases hu'
  · next hne =>
      have hut : u ≠ t := fun e => hne (e ▸ hu')
      have hju' : s.jobs u = some j := (Split.setJob_ne _ _ hut).symm.trans hju
      exact h j (holding_some.mpr ⟨u, hu', hju'⟩)

section

variable [DecidableEq τ] [DecidableEq γ] {M : System σ α} {W : Writers σ α τ γ β}

theorem roomy_step {s s' : Split σ α τ γ β} {e : SplitAct α τ γ} (he : Exclusive M W)
    (hr : Reach M s.base) (hh : Held W s) (hok : Ready W s e) (hst : Split.Step M W s e s')
    (h : Roomy s) : Roomy s' := by
  cases hst with
  | plain hidle hw hl hst => exact h
  | @begin a w hidle hw hl =>
      -- the holder is the thread that begins, or it is as before
      have key : Roomy ({ s with lock := if W.locks s.base a then some (W.thread a) else
          s.lock }.setJob (W.thread a) (some ⟨a, w, w.head, w.body⟩)) := by
        intro j hj
        obtain ⟨u, hu, hju⟩ := holding_some.mp hj
        have hu' : (if W.locks s.base a then some (W.thread a) else s.lock) = some u := hu
        by_cases hut : u = W.thread a
        · subst hut
          cases (Split.setJob_same _ _ _).symm.trans hju
          split at hu'
          · next hla => exact hok w hw hla
          · obtain ⟨k, hk, -⟩ := hh.holder _ hu'
            rw [hidle] at hk
            cases hk
        · have hju' : s.jobs u = some j := (Split.setJob_ne _ _ hut).symm.trans hju
          split at hu'
          · cases hu'
            exact absurd rfl hut
          · exact h j (holding_some.mpr ⟨u, hu', hju'⟩)
      exact key.setWire fun j hj hjc hs => hjc ▸ key j hj (hjc ▸ hs)
  | @put t j k hj hk hroom hopen =>
      intro i hi hs
      obtain ⟨u, hu, hiu⟩ := holding_some.mp hi
      have hu' : s.lock = some u := hu
      by_cases hut : u = t
      · subst hut
        cases (Split.setJob_same _ _ _).symm.trans hiu
        have hstalled : (s.wires j.write.conn).stalled = true := by
          have hs' : ((s.send u j k).wires j.write.conn).stalled = true := hs
          unfold Split.send at hs'
          rw [Split.setWire_same] at hs'
          exact hs'
        have hle := h j (holding_some.mpr ⟨u, hu', hj⟩) hstalled
        show (j.left.drop k ++ j.more).length ≤ ((s.send u j k).wires j.write.conn).room
        unfold Split.send
        rw [Split.setWire_same]
        unfold Job.rest at hle
        rw [List.length_append] at hle ⊢
        rw [List.length_drop]
        dsimp only
        omega
      · have hiu' : s.jobs u = some i := (Split.setJob_ne _ _ hut).symm.trans hiu
        have hne : i.write.conn ≠ j.write.conn := fun e => hut (hh.unique he hr hiu' hj e)
        have hwire : (s.send t j k).wires i.write.conn = s.wires i.write.conn :=
          Split.setWire_ne _ _ hne
        rw [hwire] at hs ⊢
        exact h i (holding_some.mpr ⟨u, hu', hiu'⟩) hs
  | @next t j hj hleft hmore =>
      intro i hi hs
      obtain ⟨u, hu, hiu⟩ := holding_some.mp hi
      by_cases hut : u = t
      · subst hut
        cases (Split.setJob_same _ _ _).symm.trans hiu
        have hle := h j (holding_some.mpr ⟨u, hu, hj⟩) hs
        unfold Job.rest at hle ⊢
        rw [hleft, List.nil_append] at hle
        rw [List.append_nil]
        exact hle
      · exact h i (holding_some.mpr ⟨u, hu, (Split.setJob_ne _ _ hut).symm.trans hiu⟩) hs
  | finish hj hrest hst => exact h.released _ _
  | @fail t j base hj hleft hst =>
      exact (h.released t base).setWire fun i hi hic hs =>
        hic ▸ (h.released t base) i hi (hic ▸ hs)
  | drain hs =>
      refine h.setWire fun j hj hjc hstalled => ?_
      rw [hs] at hstalled
      cases hstalled
  | stall => exact h.setWire fun j hj hjc _ => hok j hj hjc
  | shut => exact h.setWire fun j hj hjc hs => hjc ▸ h j hj (hjc ▸ hs)

theorem roomy_reach {s : Split σ α τ γ β} (he : Exclusive M W)
    (h : ReachWhen (split M W) (Ready W) s) : Roomy s := by
  refine h.invariant_of (J := fun s => Reach M s.base ∧ Held W s)
    (fun s hs => ⟨reach_base hs, held_reach he hs⟩) ?_ ?_
  · rintro s ⟨base, room, -, rfl⟩
    exact roomy_init base room
  · intro s e s' hok hj hf hst
    exact roomy_step he hj.1 hj.2 hok (show Split.Step M W s e s' from hst) hf

/-! ## Giving the lock back -/

/-- A step of thread `t`, or a read of a peer that is not stalled. -/
def Serves (t : τ) (s : Split σ α τ γ β) : SplitAct α τ γ → Prop
  | .put u _ | .next u | .finish u | .fail u => u = t
  | .drain c _ => (s.wires c).stalled = false
  | _ => False

/-- By such steps alone `t` has come to the job `k`, with room for what it has left if the
    connection is open. -/
structure Came (M : System σ α) (W : Writers σ α τ γ β) (t : τ) (s s' : Split σ α τ γ β)
    (k : Job α γ β) : Prop where
  run : ∃ tr, Run (split M W) s tr s' ∧ Meets (Serves t) tr
  base : s'.base = s.base
  lock : s'.lock = s.lock
  jobs : s'.jobs = Function.update s.jobs t (some k)
  room : (s'.wires k.write.conn).shut = false → k.rest.length ≤ (s'.wires k.write.conn).room

theorem Came.job {t : τ} {s s' : Split σ α τ γ β} {k : Job α γ β} (h : Came M W t s s' k) :
    s'.jobs t = some k := by
  rw [h.jobs, Function.update_self]

/-- One more step of `t`. -/
theorem Came.step {t : τ} {s s' u : Split σ α τ γ β} {k : Job α γ β} {e : SplitAct α τ γ}
    (h : Came M W t s s' k) (he : Serves t s' e) (hst : Split.Step M W s' e u) :
    ∃ tr, Run (split M W) s tr u ∧ Meets (Serves t) tr := by
  obtain ⟨tr, hrun, hok⟩ := h.run
  exact ⟨tr ++ [(s', e)], hrun.tail hst, meets_snoc.mpr ⟨hok, he⟩⟩

theorem Came.next {t : τ} {s s' : Split σ α τ γ β} {k : Job α γ β} (h : Came M W t s s' k)
    (hleft : k.left = []) (hmore : k.more ≠ []) :
    Came M W t s (s'.setJob t (some { k with left := k.more, more := [] }))
      { k with left := k.more, more := [] } := by
  refine ⟨h.step (e := .next t) rfl (.next h.job hleft hmore), h.base, h.lock, ?_, fun hs => ?_⟩
  · show Function.update s'.jobs t _ = _
    rw [h.jobs, Function.update_idem]
  · have hle := h.room hs
    unfold Job.rest at hle ⊢
    rw [hleft, List.nil_append] at hle
    rw [List.append_nil]
    exact hle

theorem Came.put {t : τ} {s s' : Split σ α τ γ β} {k : Job α γ β} (h : Came M W t s s' k)
    (hleft : k.left ≠ []) (hopen : (s'.wires k.write.conn).shut = false) :
    Came M W t s (s'.send t k k.left.length) { k with left := [] } := by
  have hroom := h.room hopen
  unfold Job.rest at hroom
  rw [List.length_append] at hroom
  have hput := h.step (e := .put t _) rfl
    (Split.Step.put h.job ⟨List.length_pos_of_ne_nil hleft, Nat.le_refl _⟩ (by omega) hopen)
  refine ⟨hput, h.base, h.lock, ?_, fun _ => ?_⟩
  · show Function.update s'.jobs t (some { k with left := k.left.drop k.left.length }) = _
    rw [List.drop_length, h.jobs, Function.update_idem]
  · show ([] ++ k.more).length ≤ ((s'.send t k k.left.length).wires k.write.conn).room
    unfold Split.send
    rw [Split.setWire_same, List.nil_append]
    dsimp only
    omega

/-- On an open connection the current write is put. -/
theorem Came.flush {t : τ} {s s' : Split σ α τ γ β} {k : Job α γ β} (h : Came M W t s s' k)
    (hopen : (s'.wires k.write.conn).shut = false) :
    ∃ u, Came M W t s u { k with left := [] } ∧ (u.wires k.write.conn).shut = false := by
  by_cases hleft : k.left = []
  · obtain ⟨act, write, left, more⟩ := k
    cases hleft
    exact ⟨s', h, hopen⟩
  · refine ⟨_, h.put hleft hopen, ?_⟩
    unfold Split.send
    rw [Split.setWire_same]
    exact hopen

/-- By such steps alone the lock is given back, with the step `a` taken and the other threads where
    they were. -/
def GivenBack (M : System σ α) (W : Writers σ α τ γ β) (t : τ) (s : Split σ α τ γ β) (a : α) :
    Prop :=
  ∃ ok tr s', Run (split M W) s tr s' ∧ Meets (Serves t) tr ∧ s'.lock = none ∧
    s'.jobs = Function.update s.jobs t none ∧ M.step s.base (W.settle a ok) s'.base

theorem Came.giveBack {t : τ} {s s' u : Split σ α τ γ β} {k : Job α γ β} {e : SplitAct α τ γ}
    {ok : Bool} (h : Came M W t s s' k) (ht : s.lock = some t) (he : Serves t s' e)
    (hst : Split.Step M W s' e u) (hlock : u.lock = if s'.lock = some t then none else s'.lock)
    (hjobs : u.jobs = Function.update s'.jobs t none)
    (hbase : M.step s.base (W.settle k.act ok) u.base) : GivenBack M W t s k.act := by
  obtain ⟨tr, hrun, hok⟩ := h.step he hst
  refine ⟨ok, tr, u, hrun, hok, ?_, ?_, hbase⟩
  · rw [hlock, h.lock, ht, if_pos rfl]
  · rw [hjobs, h.jobs, Function.update_idem]

/-- The job ends with nothing left. -/
theorem Came.finish {t : τ} {s s' : Split σ α τ γ β} {k : Job α γ β} {base : σ}
    (h : Came M W t s s' k) (ht : s.lock = some t) (hrest : k.rest = [])
    (hst : M.step s.base (W.settle k.act true) base) : GivenBack M W t s k.act := by
  have hst' : M.step s'.base (W.settle k.act true) base := h.base ▸ hst
  exact h.giveBack (e := .finish t) ht rfl (Split.Step.finish h.job hrest hst') rfl rfl hst

/-- The write gives up. -/
theorem Came.fail {t : τ} {s s' : Split σ α τ γ β} {k : Job α γ β} {base : σ}
    (h : Came M W t s s' k) (ht : s.lock = some t) (hleft : k.left ≠ [])
    (hst : M.step s.base (W.settle k.act false) base) : GivenBack M W t s k.act := by
  have hst' : M.step s'.base (W.settle k.act false) base := h.base ▸ hst
  exact h.giveBack (e := .fail t) ht rfl (Split.Step.fail h.job hleft hst') rfl rfl hst

/-- The holder of the lock gives it back by its own steps and reads of peers that are not
    stalled: its step has been taken, and the other threads are where they were. -/
theorem unlock {s : Split σ α τ γ β} (hh : Held W s) (hroomy : Roomy s)
    (hable : ∀ a w ok, W.write s.base a = some w → ∃ base, M.step s.base (W.settle a ok) base)
    {t : τ} (ht : s.lock = some t) :
    ∃ j ok tr s', s.jobs t = some j ∧ Run (split M W) s tr s' ∧ Meets (Serves t) tr ∧
      s'.lock = none ∧ s'.jobs = Function.update s.jobs t none ∧
      M.step s.base (W.settle j.act ok) s'.base := by
  obtain ⟨j, hj, -⟩ := hh.holder t ht
  obtain ⟨-, hw, -⟩ := hh.job t j hj
  have hrefl : Function.update s.jobs t (some j) = s.jobs := by
    rw [← hj, Function.update_eq_self]
  obtain ⟨done, hdone⟩ := hable j.act j.write true hw
  obtain ⟨failed, hfailed⟩ := hable j.act j.write false hw
  suffices hgiven : GivenBack M W t s j.act by
    obtain ⟨ok, tr, s', hgiven⟩ := hgiven
    exact ⟨j, ok, tr, s', hj, hgiven⟩
  by_cases hshut : (s.wires j.write.conn).shut = true
  · have hc : Came M W t s s j := by
      refine ⟨⟨[], Run.refl, meets_nil _⟩, rfl, rfl, hrefl.symm, fun hs => ?_⟩
      rw [hshut] at hs
      cases hs
    by_cases hleft : j.left = []
    · by_cases hmore : j.more = []
      · exact hc.finish ht (by unfold Job.rest; rw [hleft, hmore]; rfl) hdone
      · exact (hc.next hleft hmore).fail ht hmore hfailed
    · exact hc.fail ht hleft hfailed
  · have hopen : (s.wires j.write.conn).shut = false := Bool.not_eq_true _ ▸ hshut
    -- room for the rest is there, or the peer makes it
    have hstart : ∃ u, Came M W t s u j ∧ (u.wires j.write.conn).shut = false := by
      by_cases hstalled : (s.wires j.write.conn).stalled = true
      · exact ⟨s, ⟨⟨[], Run.refl, meets_nil _⟩, rfl, rfl, hrefl.symm, fun _ =>
          hroomy j (holding_some.mpr ⟨t, ht, hj⟩) hstalled⟩, hopen⟩
      · have hreads : (s.wires j.write.conn).stalled = false := Bool.not_eq_true _ ▸ hstalled
        refine ⟨_, ⟨⟨_, Run.single (Split.Step.drain (n := j.rest.length) hreads), ?_⟩, rfl, rfl,
          hrefl.symm, fun _ => ?_⟩, ?_⟩
        · intro p hp
          rw [List.mem_singleton.mp hp]
          exact hreads
        · rw [Split.setWire_same]
          dsimp only
          omega
        · rw [Split.setWire_same]
          exact hopen
    obtain ⟨u, hc, hu⟩ := hstart
    obtain ⟨v, hc', hv⟩ := hc.flush hu
    by_cases hmore : j.more = []
    · exact hc'.finish ht (by unfold Job.rest; rw [hmore]; rfl) hdone
    · obtain ⟨x, hc'', -⟩ := (hc'.next rfl hmore).flush hv
      exact hc''.finish ht rfl hdone

end

end Lts
