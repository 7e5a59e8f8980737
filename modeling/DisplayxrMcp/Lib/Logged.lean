/-
  What a split system's connections carry, by a log that the system keeps.

  `Logs W rel` says that `rel` is such a log: a step whose write succeeds adds its frame,
  every other step adds none. Then what stands on a connection is what is logged, and a
  part of one more frame, which is nothing where the connection is open and nobody writes
  (`logged`). All of that frame stands there only while the job that wrote it is there.

  `System.restrict` leaves a system the starts and the steps that meet a condition: what its
  environment is assumed to do. `baseTrace` is the run of the system that a split run takes.
-/
import DisplayxrMcp.Lib.Whole

namespace Lts

variable {σ α τ γ β : Type}

/-! ## A restricted environment -/

/-- The system with the starts that meet `start` and the steps that meet `ok`. -/
def System.restrict (M : System σ α) (start : σ → Prop) (ok : σ → α → Prop) : System σ α where
  init s := M.init s ∧ start s
  step s a t := M.step s a t ∧ ok s a

variable {M : System σ α} {start : σ → Prop} {ok : σ → α → Prop}

theorem Run.unrestrict {s t : σ} {tr : List (σ × α)} (h : Run (M.restrict start ok) s tr t) :
    Run M s tr t ∧ Meets ok tr := by
  induction h with
  | refl => exact ⟨.refl, meets_nil ok⟩
  | tail _ hst ih => exact ⟨ih.1.tail hst.1, meets_snoc.mpr ⟨ih.2, hst.2⟩⟩

theorem Reach.unrestrict {s : σ} (h : Reach (M.restrict start ok) s) : Reach M s := by
  obtain ⟨s₀, tr, hi, hr, -⟩ := h
  exact ⟨s₀, tr, hi.1, hr.unrestrict.1, fun _ _ => trivial⟩

theorem Exclusive.restrict {W : Writers σ α τ γ β} (h : Exclusive M W) :
    Exclusive (M.restrict start ok) W :=
  ⟨fun hr => h.apart hr.unrestrict, fun hr hw hst => h.keep hr.unrestrict hw hst.1⟩

/-! ## The run of the system -/

/-- The step of the system that a label takes, if it takes one. -/
def Split.taken (W : Writers σ α τ γ β) (s : Split σ α τ γ β) : SplitAct α τ γ → Option α
  | .plain a => some a
  | .finish t => (s.jobs t).map fun j => W.settle j.act true
  | .fail t => (s.jobs t).map fun j => W.settle j.act false
  | _ => none

/-- The steps of the system in a run of the split one. -/
def baseTrace (W : Writers σ α τ γ β) (tr : List (Split σ α τ γ β × SplitAct α τ γ)) :
    List (σ × α) :=
  tr.filterMap fun p => (p.1.taken W p.2).map fun a => (p.1.base, a)

theorem run_baseTrace [DecidableEq τ] [DecidableEq γ] {W : Writers σ α τ γ β}
    {s t : Split σ α τ γ β} {tr : List (Split σ α τ γ β × SplitAct α τ γ)}
    (h : Run (split M W) s tr t) : Run M s.base (baseTrace W tr) t.base := by
  induction h with
  | refl => exact .refl
  | @tail tr u e v _ hst ih =>
      unfold baseTrace at ih ⊢
      rw [List.filterMap_append]
      cases (show Split.Step M W u e v from hst) with
      | plain hidle hw hl hbase => exact ih.tail hbase
      | finish hj hrest hbase =>
          rw [List.filterMap_cons, Split.taken, hj]
          exact ih.tail hbase
      | fail hj hleft hbase =>
          rw [List.filterMap_cons, Split.taken, hj]
          exact ih.tail hbase
      | _ => exact (List.append_nil _).symm ▸ ih

/-- A run whose steps of the system meet the condition is one of the restricted system. -/
theorem run_restrict [DecidableEq τ] [DecidableEq γ] {W : Writers σ α τ γ β}
    {s t : Split σ α τ γ β} {tr : List (Split σ α τ γ β × SplitAct α τ γ)}
    (h : Run (split M W) s tr t) (hok : Meets ok (baseTrace W tr)) :
    Run (split (M.restrict start ok) W) s tr t := by
  induction h with
  | refl => exact .refl
  | @tail tr u e v _ hst ih =>
      unfold baseTrace at ih hok
      rw [List.filterMap_append, meets_append] at hok
      obtain ⟨hok, he⟩ := hok
      refine (ih hok).tail (show Split.Step (M.restrict start ok) W u e v from ?_)
      cases (show Split.Step M W u e v from hst) with
      | plain hidle hw hl hbase => exact .plain hidle hw hl ⟨hbase, he _ List.mem_cons_self⟩
      | begin hidle hw hl => exact .begin hidle hw hl
      | put hj hk hroom hopen => exact .put hj hk hroom hopen
      | next hj hleft hmore => exact .next hj hleft hmore
      | @finish t j base hj hrest hbase =>
          refine .finish hj hrest ⟨hbase, he (u.base, _) ?_⟩
          rw [List.filterMap_cons, Split.taken, hj]
          exact List.mem_cons_self
      | @fail t j base hj hleft hbase =>
          refine .fail hj hleft ⟨hbase, he (u.base, _) ?_⟩
          rw [List.filterMap_cons, Split.taken, hj]
          exact List.mem_cons_self
      | drain hs => exact .drain hs
      | stall => exact .stall
      | shut => exact .shut

/-! ## Logs -/

/-- A write on `c` that is not bounded gives up inside its frame, on an open connection. -/
def TornOn (c : γ) (s : Split σ α τ γ β) : SplitAct α τ γ → Prop
  | .fail t => ∃ j, s.jobs t = some j ∧ j.write.conn = c ∧ j.write.bounded = false ∧
      (s.wires c).shut = false ∧ j.rest ≠ j.write.frame
  | _ => False

/-- `rel s c frames`: by the state `s`, `frames` are the frames written on `c`. -/
structure Logs (M : System σ α) (W : Writers σ α τ γ β) [DecidableEq γ]
    (rel : σ → γ → List (List β) → Prop) : Prop where
  nonempty : ∀ {s a w}, W.write s a = some w → w.frame ≠ []
  init : ∀ {s}, M.init s → ∀ c, rel s c []
  plain : ∀ {s a s'}, Reach M s → W.write s a = none → M.step s a s' →
    ∀ {c fs}, rel s c fs → rel s' c fs
  done : ∀ {s a w s'}, Reach M s → W.write s a = some w → M.step s (W.settle a true) s' →
    ∀ {c fs}, rel s c fs → rel s' c (if w.conn = c then fs ++ [w.frame] else fs)
  failed : ∀ {s a w s'}, Reach M s → W.write s a = some w → M.step s (W.settle a false) s' →
    ∀ {c fs}, rel s c fs → rel s' c fs

/-- Nothing, or a part of a frame that some step writes, but not all of it. -/
def Cut (M : System σ α) (W : Writers σ α τ γ β) (part : List β) : Prop :=
  part = [] ∨ ∃ s a w, Reach M s ∧ W.write s a = some w ∧ part <+: w.frame ∧ part ≠ w.frame

/-- A job has put all of its frame on connection `c`. -/
def Complete (s : Split σ α τ γ β) (c : γ) (frame : List β) : Prop :=
  ∃ t j, s.jobs t = some j ∧ j.write.conn = c ∧ j.rest = [] ∧ frame = j.write.frame

/-- The logged frames stand on the connection, and `part`: of the job that writes there, unless the
    connection is shut and the job stuck. -/
structure Stands (M : System σ α) (W : Writers σ α τ γ β) (rel : σ → γ → List (List β) → Prop)
    (s : Split σ α τ γ β) (c : γ) (fs : List (List β)) (part : List β) : Prop where
  log : rel s.base c fs
  out : (s.wires c).out = fs.flatten ++ part
  cut : Cut M W part ∨ Complete s c part
  busy : ∀ t j, s.jobs t = some j → j.write.conn = c →
    part ++ j.rest = j.write.frame ∨ ((s.wires c).shut = true ∧ j.rest ≠ [])
  idle : (s.wires c).shut = false → (∀ t j, s.jobs t = some j → j.write.conn ≠ c) → part = []

section

variable {W : Writers σ α τ γ β} {rel : σ → γ → List (List β) → Prop} {s s' : Split σ α τ γ β}
  {c : γ} {fs : List (List β)} {part : List β}

/-- Nothing happens to the connection nor to who writes there. -/
theorem Stands.congr (h : Stands M W rel s c fs part) (hrel : rel s'.base c fs)
    (hwire : (s'.wires c).out = (s.wires c).out)
    (hshut : (s.wires c).shut = true → (s'.wires c).shut = true)
    (hj : ∀ t j, s'.jobs t = some j → j.write.conn = c →
      ∃ k, s.jobs t = some k ∧ k.write = j.write ∧ k.rest = j.rest)
    (hk : ∀ t k, s.jobs t = some k → k.write.conn = c →
      ∃ j, s'.jobs t = some j ∧ j.write = k.write ∧ j.rest = k.rest) :
    Stands M W rel s' c fs part := by
  refine ⟨hrel, hwire.trans h.out, h.cut.imp_right ?_, fun t j hjt hc => ?_, fun hopen hidle => ?_⟩
  · rintro ⟨t, k, hkt, hc, hrest, hpart⟩
    obtain ⟨j, hjt, hw, hr⟩ := hk t k hkt hc
    exact ⟨t, j, hjt, hw ▸ hc, hr.trans hrest, hw ▸ hpart⟩
  · obtain ⟨k, hkt, hw, hrest⟩ := hj t j hjt hc
    rw [← hrest, ← hw]
    rcases h.busy t k hkt (hw ▸ hc) with hb | ⟨hs, hne⟩
    · exact Or.inl hb
    · exact Or.inr ⟨hshut hs, hne⟩
  · refine h.idle ?_ fun t k hkt hc => ?_
    · rw [← Bool.not_eq_true]
      intro hs
      rw [hshut hs] at hopen
      cases hopen
    · obtain ⟨j, hjt, hw, -⟩ := hk t k hkt hc
      exact hidle t j hjt (hw ▸ hc)

variable [DecidableEq τ] [DecidableEq γ] (L : Logs M W rel)
include L

/-- A frame is begun. -/
theorem Stands.begin {a : α} {w : Write γ β} (h : Stands M W rel s c fs part)
    (hw : W.write s.base a = some w) (hidle : s.jobs (W.thread a) = none)
    (hone : ∀ t j, (s.start W a w).jobs t = some j → j.write.conn = w.conn → t = W.thread a) :
    Stands M W rel (s.start W a w) c fs part := by
  have hjobs : ∀ t, t ≠ W.thread a → (s.start W a w).jobs t = s.jobs t := fun t ht =>
    Split.setJob_ne _ _ ht
  have hown : (s.start W a w).jobs (W.thread a) = some ⟨a, w, w.head, w.body⟩ :=
    Split.setJob_same _ _ _
  have hold : ∀ t k, s.jobs t = some k → t ≠ W.thread a := by
    rintro t k hk rfl
    rw [hidle] at hk
    cases hk
  by_cases hc : c = w.conn
  · subst hc
    have hwire : (s.start W a w).wires w.conn =
        { s.wires w.conn with begun := (s.wires w.conn).begun ++ [w.frame] } :=
      Split.setWire_same _ _ _
    refine ⟨h.log, by rw [hwire]; exact h.out, h.cut.imp_right ?_, fun t j hj hjc => ?_,
      fun _ hno => ?_⟩
    · rintro ⟨t, k, hk, hcut⟩
      exact ⟨t, k, (hjobs t (hold t k hk)).trans hk, hcut⟩
    · have ht := hone t j hj hjc
      subst ht
      rw [hown] at hj
      cases hj
      rw [hwire]
      cases hs : (s.wires w.conn).shut with
      | true => exact Or.inr ⟨rfl, L.nonempty hw⟩
      | false =>
          rw [h.idle hs fun t k hk hkc =>
            hold t k hk (hone t k ((hjobs t (hold t k hk)).trans hk) hkc)]
          exact Or.inl rfl
    · exact (hno _ _ hown rfl).elim
  · have hwire : (s.start W a w).wires c = s.wires c := Split.setWire_ne _ _ hc
    refine h.congr h.log (by rw [hwire]) (by rw [hwire]; exact id) ?_ ?_
    · intro t j hj hjc
      have ht : t ≠ W.thread a := by
        rintro rfl
        rw [hown] at hj
        cases hj
        exact hc hjc.symm
      exact ⟨j, (hjobs t ht).symm.trans hj, rfl, rfl⟩
    · intro t k hk hkc
      exact ⟨k, (hjobs t (hold t k hk)).trans hk, rfl, rfl⟩

omit L in
/-- A piece goes out. -/
theorem Stands.send {t : τ} {j : Job α γ β} {k : Nat} (h : Stands M W rel s c fs part)
    (hr : Reach M s.base) (hw : W.write s.base j.act = some j.write) (hj : s.jobs t = some j)
    (hopen : (s.wires j.write.conn).shut = false)
    (hone : ∀ u i, s.jobs u = some i → i.write.conn = j.write.conn → u = t) :
    ∃ part', Stands M W rel (s.send t j k) c fs part' := by
  have hjobs : ∀ u, u ≠ t → (s.send t j k).jobs u = s.jobs u := fun u hu => Split.setJob_ne _ _ hu
  have hown : (s.send t j k).jobs t = some { j with left := j.left.drop k } :=
    Split.setJob_same _ _ _
  by_cases hc : c = j.write.conn
  · subst hc
    have hwire : (s.send t j k).wires j.write.conn = { s.wires j.write.conn with
        out := (s.wires j.write.conn).out ++ j.left.take k
        room := (s.wires j.write.conn).room - k } := Split.setWire_same _ _ _
    have hpart : part ++ j.rest = j.write.frame := by
      rcases h.busy t j hj rfl with hb | ⟨hs, -⟩
      · exact hb
      · rw [hs] at hopen
        cases hopen
    have hsplit : part ++ j.left.take k ++ (j.left.drop k ++ j.more) = j.write.frame := by
      rw [List.append_assoc, ← List.append_assoc (j.left.take k), List.take_append_drop]
      exact hpart
    refine ⟨part ++ j.left.take k, h.log, ?_, ?_, ?_, ?_⟩
    · rw [hwire]
      show (s.wires j.write.conn).out ++ j.left.take k = _
      rw [h.out, List.append_assoc]
    · by_cases hrest : j.left.drop k ++ j.more = []
      · rw [hrest, List.append_nil] at hsplit
        exact Or.inr ⟨t, _, hown, rfl, hrest, hsplit⟩
      · refine Or.inl (Or.inr ⟨_, _, _, hr, hw, ⟨_, hsplit⟩, fun he => hrest ?_⟩)
        exact List.append_cancel_left (hsplit.trans (he.symm.trans (List.append_nil _).symm))
    · intro u i hi hic
      have hu : u = t := by
        by_contra hne
        exact hne (hone u i ((hjobs u hne).symm.trans hi) hic)
      subst hu
      rw [hown] at hi
      cases hi
      exact Or.inl hsplit
    · exact fun _ hno => (hno _ _ hown rfl).elim
  · have hwire : (s.send t j k).wires c = s.wires c := Split.setWire_ne _ _ hc
    refine ⟨part, h.congr h.log (by rw [hwire]) (by rw [hwire]; exact id) ?_ ?_⟩
    · intro u i hi hic
      have hu : u ≠ t := by
        rintro rfl
        rw [hown] at hi
        cases hi
        exact hc hic.symm
      exact ⟨i, (hjobs u hu).symm.trans hi, rfl, rfl⟩
    · intro u i hi hic
      have hu : u ≠ t := by
        rintro rfl
        rw [hj] at hi
        cases hi
        exact hc hic.symm
      exact ⟨i, (hjobs u hu).trans hi, rfl, rfl⟩

omit [DecidableEq τ] L in
/-- The peer or the owner does something to a connection, but puts nothing on it. -/
theorem Stands.setWire {d : γ} {w : Wire β} (h : Stands M W rel s c fs part)
    (hw : d = c → w.out = (s.wires c).out ∧ ((s.wires c).shut = true → w.shut = true)) :
    Stands M W rel (s.setWire d w) c fs part := by
  by_cases hc : c = d
  · obtain ⟨hout, hshut⟩ := hw hc.symm
    subst hc
    refine h.congr h.log ?_ ?_ (fun t j hj _ => ⟨j, hj, rfl, rfl⟩)
      fun t k hk _ => ⟨k, hk, rfl, rfl⟩
    · rw [Split.setWire_same]
      exact hout
    · rw [Split.setWire_same]
      exact hshut
  · have hwire := Split.setWire_ne s w hc
    refine h.congr h.log ?_ ?_ (fun t j hj _ => ⟨j, hj, rfl, rfl⟩)
      fun t k hk _ => ⟨k, hk, rfl, rfl⟩
    · rw [hwire]
    · rw [hwire]
      exact id

omit [DecidableEq τ] [DecidableEq γ] L in
/-- A job on another connection ends. -/
theorem Stands.elsewhere {t : τ} {j : Job α γ β} (h : Stands M W rel s c fs part)
    (hlog : rel s'.base c fs) (hj : s.jobs t = some j) (hc : j.write.conn ≠ c)
    (hjobs : ∀ u, u ≠ t → s'.jobs u = s.jobs u) (hown : s'.jobs t = none)
    (hwire : s'.wires c = s.wires c) : Stands M W rel s' c fs part := by
  refine h.congr hlog (by rw [hwire]) (by rw [hwire]; exact id) ?_ ?_
  · intro u i hi _
    have hu : u ≠ t := by
      rintro rfl
      rw [hown] at hi
      cases hi
    exact ⟨i, (hjobs u hu).symm.trans hi, rfl, rfl⟩
  · intro u i hi hic
    have hu : u ≠ t := by
      rintro rfl
      rw [hj] at hi
      cases hi
      exact hc hic
    exact ⟨i, (hjobs u hu).trans hi, rfl, rfl⟩

omit L in
/-- What a step keeps: some frames are logged, and stand on the connection. -/
theorem stands_step {e : SplitAct α τ γ} (L : Logs M W rel) (he : Exclusive M W)
    (hr : Reach M s.base) (hh : Held W s) (hok : ¬ TornOn c s e) (hst : Split.Step M W s e s')
    (h : ∃ fs part, Stands M W rel s c fs part) : ∃ fs part, Stands M W rel s' c fs part := by
  obtain ⟨fs, part, h⟩ := h
  have hone : ∀ {t j}, s.jobs t = some j → ∀ u i, s.jobs u = some i →
      i.write.conn = j.write.conn → u = t := fun hj u i hi hc => hh.unique he hr hi hj hc
  have hheld : Held W s' := held_step he hr hst hh
  cases hst with
  | plain hidle hw hl hst =>
      exact ⟨fs, part, h.congr (L.plain hr hw hst h.log) rfl id (fun t j hj _ => ⟨j, hj, rfl, rfl⟩)
        fun t k hk _ => ⟨k, hk, rfl, rfl⟩⟩
  | begin hidle hw hl =>
      exact ⟨fs, part, h.begin L hw hidle fun t j hj hc =>
        Held.unique (s := s.start W _ _) he hr hheld hj (Split.setJob_same _ _ _) hc⟩
  | put hj hk hroom hopen =>
      obtain ⟨part', h'⟩ := h.send hr (hh.job _ _ hj).2.1 hj hopen (hone hj)
      exact ⟨fs, part', h'⟩
  | @next t j hj hleft hmore =>
      refine ⟨fs, part, h.congr h.log rfl id ?_ ?_⟩
      · intro u i hi _
        by_cases hu : u = t
        · subst hu
          rw [Split.setJob_same] at hi
          cases hi
          exact ⟨j, hj, rfl, by unfold Job.rest; rw [hleft, List.append_nil, List.nil_append]⟩
        · exact ⟨i, (Split.setJob_ne _ _ hu).symm.trans hi, rfl, rfl⟩
      · intro u i hi hic
        by_cases hu : u = t
        · subst hu
          rw [hj] at hi
          cases hi
          exact ⟨_, Split.setJob_same _ _ _, rfl,
            by unfold Job.rest; rw [hleft, List.append_nil, List.nil_append]⟩
        · exact ⟨i, (Split.setJob_ne _ _ hu).trans hi, rfl, rfl⟩
  | @finish t j base hj hrest hst =>
      have hlog := L.done hr (hh.job t j hj).2.1 hst h.log
      have hjobs : ∀ u, u ≠ t → (({ s with base := base }.setJob t none).release t).jobs u =
          s.jobs u := fun u hu => Split.setJob_ne _ _ hu
      have hown : (({ s with base := base }.setJob t none).release t).jobs t = none :=
        Split.setJob_same _ _ _
      by_cases hc : j.write.conn = c
      · rw [if_pos hc] at hlog
        have hpart : part = j.write.frame := by
          rcases h.busy t j hj hc with hb | ⟨-, hne⟩
          · rwa [hrest, List.append_nil] at hb
          · exact absurd hrest hne
        refine ⟨fs ++ [j.write.frame], [], hlog, ?_, Or.inl (Or.inl rfl), ?_, fun _ _ => rfl⟩
        · rw [List.flatten_append, List.flatten_singleton, List.append_nil, ← hpart]
          exact h.out
        · intro u i hi hic
          have hu : u ≠ t := by
            rintro rfl
            cases hown.symm.trans hi
          exact absurd (hone hj u i ((hjobs u hu).symm.trans hi) (hic.trans hc.symm)) hu
      · rw [if_neg hc] at hlog
        exact ⟨fs, part, h.elsewhere hlog hj hc hjobs hown rfl⟩
  | @fail t j base hj hleft hst =>
      have hlog := L.failed hr (hh.job t j hj).2.1 hst h.log
      have hjobs : ∀ u, u ≠ t → (s.giveUp t j base).jobs u = s.jobs u := fun u hu =>
        Split.setJob_ne _ _ hu
      have hown : (s.giveUp t j base).jobs t = none := Split.setJob_same _ _ _
      refine ⟨fs, part, ?_⟩
      by_cases hc : j.write.conn = c
      · have hwire : (s.giveUp t j base).wires c = { s.wires c with
            shut := (s.wires c).shut || j.write.bounded } := by
          rw [← hc]
          exact Split.setWire_same _ _ _
        refine ⟨hlog, by rw [hwire]; exact h.out, Or.inl (h.cut.resolve_right ?_), ?_, ?_⟩
        · -- what is left to send of this job is not nothing
          rintro ⟨u, i, hi, hic, hrest, -⟩
          have hu := hone hj u i hi (hic.trans hc.symm)
          subst hu
          rw [hj] at hi
          cases hi
          exact hleft (List.append_eq_nil_iff.mp hrest).1
        · intro u i hi hic
          have hu : u ≠ t := by
            rintro rfl
            cases hown.symm.trans hi
          exact absurd (hone hj u i ((hjobs u hu).symm.trans hi) (hic.trans hc.symm)) hu
        · intro hopen _
          rw [hwire] at hopen
          obtain ⟨hopen, hbounded⟩ := Bool.or_eq_false_iff.mp hopen
          -- the write is not bounded, so that nothing of its frame is out
          have hrest : j.rest = j.write.frame := by
            by_contra hne
            exact hok ⟨j, hj, hc, hbounded, hopen, hne⟩
          rcases h.busy t j hj hc with hb | ⟨hs, -⟩
          · rw [hrest] at hb
            exact List.append_cancel_right (hb.trans (List.nil_append _).symm)
          · rw [hs] at hopen
            cases hopen
      · have hwire : (s.giveUp t j base).wires c = s.wires c :=
          Split.setWire_ne _ _ fun e => hc e.symm
        exact h.elsewhere hlog hj hc hjobs hown hwire
  | drain hs => exact ⟨fs, part, h.setWire (by rintro rfl; exact ⟨rfl, id⟩)⟩
  | stall => exact ⟨fs, part, h.setWire (by rintro rfl; exact ⟨rfl, id⟩)⟩
  | shut => exact ⟨fs, part, h.setWire (by rintro rfl; exact ⟨rfl, fun _ => rfl⟩)⟩

/-- In a run in which no frame is torn on a connection, what is logged stands there, and a part of
    one frame at most. -/
theorem logged (he : Exclusive M W) {c : γ}
    (h : ReachWhen (split M W) (fun s e => ¬ TornOn c s e) s) :
    ∃ fs part, Stands M W rel s c fs part := by
  refine h.invariant_of (I := fun s => ∃ fs part, Stands M W rel s c fs part)
    (J := fun s => Reach M s.base ∧ Held W s) (fun s hs => ⟨reach_base hs, held_reach he hs⟩) ?_ ?_
  · rintro s ⟨base, room, hi, rfl⟩
    exact ⟨[], [], L.init hi c, rfl, Or.inl (Or.inl rfl), fun t j h => (by cases h), fun _ _ => rfl⟩
  · intro s e s' hok hj hs hst
    exact stands_step L he hj.1 hj.2 hok (show Split.Step M W s e s' from hst) hs

end

end Lts
