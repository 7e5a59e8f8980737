/-
  What stands on a connection of a split system.

  `Flow` is the invariant: nobody writes, and whole frames stand there; or one
  thread does, and the part behind them and what it has left make up its frame;
  or the connection is shut, and any part may be left behind. It is kept by every
  step but a write that gives up in the middle of a frame on an open connection
  (`Torn`). `intact` reads it off, `out_frozen` says that a shut connection
  carries nothing more.
-/
import DisplayxrMcp.Lib.Split

namespace Lts

variable {σ α τ γ β : Type}

/-- Whole frames stand on the connection, in the order in which they were begun. -/
def Wire.Quiet (w : Wire β) : Prop :=
  ∃ frames : List (List β), frames.Sublist w.begun ∧ w.out = frames.flatten

/-- Whole frames stand on the connection, then `part` of the frame `f` begun after them. -/
def Wire.Partly (w : Wire β) (f part : List β) : Prop :=
  ∃ frames : List (List β), (frames ++ [f]).Sublist w.begun ∧ w.out = frames.flatten ++ part

/-- Whole frames, then at most a part of one, which its thread still completes unless the
    connection is shut. -/
def Intact (s : Split σ α τ γ β) (c : γ) : Prop :=
  (s.wires c).Quiet ∨ ∃ f part, (s.wires c).Partly f part ∧ part <+: f ∧
    ((s.wires c).shut = true ∨
      ∃ t j, s.jobs t = some j ∧ j.write.conn = c ∧ part ++ j.rest = f)

/-- A write that is not bounded gives up on an open connection with part of its frame out. -/
def Torn (s : Split σ α τ γ β) : SplitAct α τ γ → Prop
  | .fail t => ∃ j, s.jobs t = some j ∧ j.write.bounded = false ∧
      (s.wires j.write.conn).shut = false ∧ j.rest ≠ j.write.frame
  | _ => False

instance [DecidableEq β] (s : Split σ α τ γ β) (e : SplitAct α τ γ) : Decidable (Torn s e) :=
  match e with
  | .fail t => inferInstanceAs (Decidable (∃ j, s.jobs t = some j ∧ j.write.bounded = false ∧
      (s.wires j.write.conn).shut = false ∧ j.rest ≠ j.write.frame))
  | .plain _ | .begin _ | .put _ _ | .next _ | .finish _ | .drain _ _ | .stall _ | .shut _ =>
      inferInstanceAs (Decidable False)

/-- What stands on connection `c`, and who writes there. -/
structure Flow (s : Split σ α τ γ β) (c : γ) : Prop where
  shut : (s.wires c).shut = true →
    (s.wires c).Quiet ∨ ∃ f part, (s.wires c).Partly f part ∧ part <+: f
  idle : (s.wires c).shut = false → (∀ t j, s.jobs t = some j → j.write.conn ≠ c) →
    (s.wires c).Quiet
  busy : (s.wires c).shut = false → ∀ t j, s.jobs t = some j → j.write.conn = c →
    ∃ part, (s.wires c).Partly j.write.frame part ∧ part ++ j.rest = j.write.frame

/-- What stands on an intact connection is the beginning of frames begun there, one after the
    other. -/
theorem Intact.begins {s : Split σ α τ γ β} {c : γ} (h : Intact s c) :
    ∃ frames : List (List β), frames.Sublist (s.wires c).begun ∧
      (s.wires c).out <+: frames.flatten := by
  rcases h with ⟨frames, hs, hout⟩ | ⟨f, part, ⟨frames, hs, hout⟩, hpre, -⟩
  · exact ⟨frames, hs, hout ▸ List.prefix_rfl⟩
  · refine ⟨frames ++ [f], hs, ?_⟩
    rw [hout, List.flatten_append, List.flatten_singleton]
    exact (List.prefix_append_right_inj _).mpr hpre

theorem Wire.Quiet.mono {w w' : Wire β} (h : w.Quiet) (hb : w.begun.Sublist w'.begun)
    (ho : w'.out = w.out) : w'.Quiet := by
  obtain ⟨frames, hs, hout⟩ := h
  exact ⟨frames, hs.trans hb, ho.trans hout⟩

theorem Wire.Partly.mono {w w' : Wire β} {f part : List β} (h : w.Partly f part)
    (hb : w.begun.Sublist w'.begun) (ho : w'.out = w.out) : w'.Partly f part := by
  obtain ⟨frames, hs, hout⟩ := h
  exact ⟨frames, hs.trans hb, ho.trans hout⟩

/-- A frame of which nothing is out is as good as not begun. -/
theorem Wire.Partly.quiet {w : Wire β} {f : List β} (h : w.Partly f []) : w.Quiet := by
  obtain ⟨frames, hs, hout⟩ := h
  exact ⟨frames, (List.sublist_append_left _ _).trans hs, hout.trans (List.append_nil _)⟩

/-- A frame that is all out is whole. -/
theorem Wire.Partly.whole {w : Wire β} {f : List β} (h : w.Partly f f) : w.Quiet := by
  obtain ⟨frames, hs, hout⟩ := h
  exact ⟨frames ++ [f], hs, hout.trans (by simp)⟩

theorem Flow.intact {s : Split σ α τ γ β} {c : γ} (h : Flow s c) : Intact s c := by
  cases hs : (s.wires c).shut with
  | true =>
      rcases h.shut hs with hq | ⟨f, part, hp, hpre⟩
      · exact Or.inl hq
      · exact Or.inr ⟨f, part, hp, hpre, Or.inl hs⟩
  | false =>
      by_cases hj : ∃ t j, s.jobs t = some j ∧ j.write.conn = c
      · obtain ⟨t, j, hj, hc⟩ := hj
        obtain ⟨part, hp, hrest⟩ := h.busy hs t j hj hc
        exact Or.inr ⟨_, part, hp, ⟨_, hrest⟩, Or.inr ⟨t, j, hj, hc, hrest⟩⟩
      · exact Or.inl (h.idle hs fun t j hjt hc => hj ⟨t, j, hjt, hc⟩)

/-- What stands on the connection, whoever writes there. -/
theorem Flow.any {s : Split σ α τ γ β} {c : γ} (h : Flow s c) :
    (s.wires c).Quiet ∨ ∃ f part, (s.wires c).Partly f part ∧ part <+: f := by
  rcases h.intact with hq | ⟨f, part, hp, hpre, -⟩
  · exact Or.inl hq
  · exact Or.inr ⟨f, part, hp, hpre⟩

/-- A connection that is shut may hold anything that stood there. -/
theorem Flow.of_shut {s s' : Split σ α τ γ β} {c : γ} (h : Flow s c)
    (hs : (s'.wires c).shut = true) (hb : (s.wires c).begun.Sublist (s'.wires c).begun)
    (ho : (s'.wires c).out = (s.wires c).out) : Flow s' c := by
  have hno : (s'.wires c).shut ≠ false := by
    rw [hs]
    decide
  refine ⟨fun _ => ?_, fun hf => absurd hf hno, fun hf => absurd hf hno⟩
  rcases h.any with hq | ⟨f, part, hp, hpre⟩
  · exact Or.inl (hq.mono hb ho)
  · exact Or.inr ⟨f, part, hp.mono hb ho, hpre⟩

/-- Nothing happens to the connection nor to who writes there. -/
theorem Flow.congr {s s' : Split σ α τ γ β} {c : γ} (h : Flow s c)
    (hb : (s'.wires c).begun = (s.wires c).begun) (ho : (s'.wires c).out = (s.wires c).out)
    (hs : (s'.wires c).shut = (s.wires c).shut)
    (hj : ∀ t j, s'.jobs t = some j → j.write.conn = c →
      ∃ k, s.jobs t = some k ∧ k.write = j.write ∧ k.rest = j.rest)
    (hk : ∀ t k, s.jobs t = some k → k.write.conn = c →
      ∃ j, s'.jobs t = some j ∧ j.write.conn = c) : Flow s' c := by
  have hb' : (s.wires c).begun.Sublist (s'.wires c).begun := by rw [hb]
  refine ⟨fun hsh => ?_, fun hsh hidle => ?_, fun hsh t j hjt hc => ?_⟩
  · rcases h.shut (hs ▸ hsh) with hq | ⟨f, part, hp, hpre⟩
    · exact Or.inl (hq.mono hb' ho)
    · exact Or.inr ⟨f, part, hp.mono hb' ho, hpre⟩
  · refine (h.idle (hs ▸ hsh) fun t k hkt hc => ?_).mono hb' ho
    obtain ⟨j, hjt, hjc⟩ := hk t k hkt hc
    exact hidle t j hjt hjc
  · obtain ⟨k, hkt, hw, hrest⟩ := hj t j hjt hc
    obtain ⟨part, hp, hpart⟩ := h.busy (hs ▸ hsh) t k hkt (hw ▸ hc)
    rw [hw] at hp hpart
    exact ⟨part, hp.mono hb' ho, hrest ▸ hpart⟩

theorem flow_init (base : σ) (room : γ → Nat) (c : γ) :
    Flow (Split.init base room : Split σ α τ γ β) c := by
  have hquiet : ((Split.init base room : Split σ α τ γ β).wires c).Quiet :=
    ⟨[], List.Sublist.refl _, rfl⟩
  exact ⟨fun _ => Or.inl hquiet, fun _ _ => hquiet, fun _ t j h => (by cases h)⟩

/-- A job is over: with its whole frame out, with none of it, or on a connection that is shut. -/
theorem Flow.over {s s' : Split σ α τ γ β} {t : τ} {j : Job α γ β} {c : γ} (h : Flow s c)
    (hj : s.jobs t = some j) (hone : ∀ u i, s.jobs u = some i → i.write.conn = j.write.conn → u = t)
    (hjobs : ∀ u, u ≠ t → s'.jobs u = s.jobs u) (hown : s'.jobs t = none)
    (hbegun : (s'.wires c).begun = (s.wires c).begun) (hout : (s'.wires c).out = (s.wires c).out)
    (hshut : (s'.wires c).shut = (s.wires c).shut ∨ (s'.wires c).shut = true)
    (hend : c = j.write.conn → (s'.wires c).shut = true ∨ j.rest = [] ∨ j.rest = j.write.frame) :
    Flow s' c := by
  have hsub : (s.wires c).begun.Sublist (s'.wires c).begun := by rw [hbegun]
  rcases hshut with hshut | hshut
  · have hgone : ∀ u i, s'.jobs u = some i → u ≠ t := by
      rintro u i hi rfl
      rw [hown] at hi
      cases hi
    by_cases hc : c = j.write.conn
    · subst hc
      rcases hend rfl with hs | hrest
      · exact h.of_shut hs hsub hout
      · refine ⟨fun hs => ?_, fun hs _ => ?_, fun _ u i hi hic => ?_⟩
        · exact (h.of_shut hs hsub hout).shut hs
        · obtain ⟨part, hp, hpart⟩ := h.busy (hshut ▸ hs) t j hj rfl
          refine Wire.Quiet.mono ?_ hsub hout
          rcases hrest with hrest | hrest
          · rw [hrest, List.append_nil] at hpart
            rw [hpart] at hp
            exact hp.whole
          · rw [hrest] at hpart
            rw [List.append_cancel_right (hpart.trans (List.nil_append _).symm)] at hp
            exact hp.quiet
        · have hu := hgone u i hi
          exact absurd (hone u i ((hjobs u hu).symm.trans hi) hic) hu
    · refine h.congr hbegun hout hshut ?_ ?_
      · intro u i hi _
        exact ⟨i, (hjobs u (hgone u i hi)).symm.trans hi, rfl, rfl⟩
      · intro u i hi hic
        have hu : u ≠ t := by
          rintro rfl
          rw [hj] at hi
          cases hi
          exact hc hic.symm
        exact ⟨i, (hjobs u hu).trans hi, hic⟩
  · exact h.of_shut hshut hsub hout

section

variable [DecidableEq τ] [DecidableEq γ] {M : System σ α} {W : Writers σ α τ γ β}

/-- A frame is begun on a connection on which nobody writes. -/
theorem Flow.begin {s : Split σ α τ γ β} {a : α} {w : Write γ β} {c : γ} (h : Flow s c)
    (hidle : s.jobs (W.thread a) = none)
    (hone : ∀ t j, (s.start W a w).jobs t = some j → j.write.conn = w.conn → t = W.thread a) :
    Flow (s.start W a w) c := by
  have hjobs : ∀ t, t ≠ W.thread a → (s.start W a w).jobs t = s.jobs t := fun t ht =>
    Split.setJob_ne _ _ ht
  have hown : (s.start W a w).jobs (W.thread a) = some ⟨a, w, w.head, w.body⟩ :=
    Split.setJob_same _ _ _
  have hold : ∀ t k, s.jobs t = some k → t ≠ W.thread a := by
    rintro t k hk rfl
    rw [hidle] at hk
    cases hk
  by_cases hc : c = w.conn
  · subst hc
    have hwire : (s.start W a w).wires w.conn =
        { s.wires w.conn with begun := (s.wires w.conn).begun ++ [w.frame] } :=
      Split.setWire_same _ _ _
    have hquiet : (s.wires w.conn).shut = false → (s.wires w.conn).Quiet := fun hs =>
      h.idle hs fun t k hk hkc =>
        hold t k hk (hone t k ((hjobs t (hold t k hk)).trans hk) hkc)
    refine ⟨fun hs => ?_, fun _ hno => ?_, fun hs t j hj hjc => ?_⟩
    · rw [hwire] at hs ⊢
      have hgrow := List.sublist_append_left (s.wires w.conn).begun [w.frame]
      rcases h.shut hs with hq | ⟨f, part, hp, hpre⟩
      · exact Or.inl (hq.mono hgrow rfl)
      · exact Or.inr ⟨f, part, hp.mono hgrow rfl, hpre⟩
    · exact (hno _ _ hown rfl).elim
    · have ht := hone t j hj hjc
      subst ht
      rw [hown] at hj
      cases hj
      rw [hwire] at hs ⊢
      obtain ⟨frames, hsub, hout⟩ := hquiet hs
      exact ⟨[], ⟨frames, hsub.append (List.Sublist.refl _), hout.trans (List.append_nil _).symm⟩,
        rfl⟩
  · have hwire : (s.start W a w).wires c = s.wires c := Split.setWire_ne _ _ hc
    refine h.congr (by rw [hwire]) (by rw [hwire]) (by rw [hwire]) ?_ ?_
    · intro t j hj hjc
      have ht : t ≠ W.thread a := by
        rintro rfl
        rw [hown] at hj
        cases hj
        exact hc hjc.symm
      exact ⟨j, (hjobs t ht).symm.trans hj, rfl, rfl⟩
    · intro t k hk hkc
      exact ⟨k, (hjobs t (hold t k hk)).trans hk, hkc⟩

/-- A piece goes out on an open connection. -/
theorem Flow.send {s : Split σ α τ γ β} {t : τ} {j : Job α γ β} {k : Nat} {c : γ} (h : Flow s c)
    (hj : s.jobs t = some j) (hopen : (s.wires j.write.conn).shut = false)
    (hone : ∀ u i, s.jobs u = some i → i.write.conn = j.write.conn → u = t) :
    Flow (s.send t j k) c := by
  have hjobs : ∀ u, u ≠ t → (s.send t j k).jobs u = s.jobs u := fun u hu => Split.setJob_ne _ _ hu
  have hown : (s.send t j k).jobs t = some { j with left := j.left.drop k } :=
    Split.setJob_same _ _ _
  by_cases hc : c = j.write.conn
  · subst hc
    have hwire : (s.send t j k).wires j.write.conn = { s.wires j.write.conn with
        out := (s.wires j.write.conn).out ++ j.left.take k
        room := (s.wires j.write.conn).room - k } := Split.setWire_same _ _ _
    obtain ⟨part, ⟨frames, hsub, hout⟩, hpart⟩ := h.busy hopen t j hj rfl
    refine ⟨fun hs => ?_, fun _ hno => ?_, fun _ u i hi hic => ?_⟩
    · rw [hwire] at hs
      rw [hopen] at hs
      cases hs
    · exact (hno _ _ hown rfl).elim
    · have hu : u = t := by
        by_contra hne
        exact hne (hone u i ((hjobs u hne).symm.trans hi) hic)
      subst hu
      rw [hown] at hi
      cases hi
      rw [hwire]
      refine ⟨part ++ j.left.take k, ⟨frames, hsub, ?_⟩, ?_⟩
      · show (s.wires j.write.conn).out ++ j.left.take k = _
        rw [hout, List.append_assoc]
      · show part ++ j.left.take k ++ (j.left.drop k ++ j.more) = _
        rw [List.append_assoc, ← List.append_assoc (j.left.take k), List.take_append_drop]
        exact hpart
  · have hwire : (s.send t j k).wires c = s.wires c := Split.setWire_ne _ _ hc
    refine h.congr (by rw [hwire]) (by rw [hwire]) (by rw [hwire]) ?_ ?_
    · intro u i hi hic
      have hu : u ≠ t := by
        rintro rfl
        rw [hown] at hi
        cases hi
        exact hc hic.symm
      exact ⟨i, (hjobs u hu).symm.trans hi, rfl, rfl⟩
    · intro u i hi hic
      have hu : u ≠ t := by
        rintro rfl
        rw [hj] at hi
        cases hi
        exact hc hic.symm
      exact ⟨i, (hjobs u hu).trans hi, hic⟩

theorem flow_step {s s' : Split σ α τ γ β} {e : SplitAct α τ γ} {c : γ} (he : Exclusive M W)
    (hr : Reach M s.base) (hh : Held W s) (hok : ¬ Torn s e) (hst : Split.Step M W s e s')
    (h : Flow s c) : Flow s' c := by
  have hone : ∀ {t j}, s.jobs t = some j → ∀ u i, s.jobs u = some i →
      i.write.conn = j.write.conn → u = t := fun hj u i hi hc => hh.unique he hr hi hj hc
  have hheld : Held W s' := held_step he hr hst hh
  cases hst with
  | plain hidle hw hl hst => exact ⟨h.shut, h.idle, h.busy⟩
  | begin hidle hw hl =>
      exact h.begin hidle fun t j hj hc =>
        Held.unique (s := s.start W _ _) he hr hheld hj (Split.setJob_same _ _ _) hc
  | put hj hk hroom hopen => exact h.send hj hopen (hone hj)
  | @next t j hj hleft hmore =>
      refine h.congr rfl rfl rfl ?_ ?_
      · intro u i hi _
        by_cases hu : u = t
        · subst hu
          rw [Split.setJob_same] at hi
          cases hi
          exact ⟨j, hj, rfl, by unfold Job.rest; rw [hleft, List.append_nil, List.nil_append]⟩
        · exact ⟨i, (Split.setJob_ne _ _ hu).symm.trans hi, rfl, rfl⟩
      · intro u i hi hic
        by_cases hu : u = t
        · subst hu
          rw [hj] at hi
          cases hi
          exact ⟨_, Split.setJob_same _ _ _, hic⟩
        · exact ⟨i, (Split.setJob_ne _ _ hu).trans hi, hic⟩
  | finish hj hrest hst =>
      exact h.over hj (hone hj) (fun u hu => Split.setJob_ne _ _ hu) (Split.setJob_same _ _ _) rfl
        rfl (Or.inl rfl) fun _ => Or.inr (Or.inl hrest)
  | @fail t j base hj hleft hst =>
      have hjobs : ∀ u, u ≠ t → (s.giveUp t j base).jobs u = s.jobs u := fun u hu =>
        Split.setJob_ne _ _ hu
      have hown : (s.giveUp t j base).jobs t = none := Split.setJob_same _ _ _
      by_cases hc : c = j.write.conn
      · subst hc
        have hwire : (s.giveUp t j base).wires j.write.conn = { s.wires j.write.conn with
            shut := (s.wires j.write.conn).shut || j.write.bounded } := Split.setWire_same _ _ _
        refine h.over hj (hone hj) hjobs hown (by rw [hwire]) (by rw [hwire]) ?_ fun _ => ?_
        · rw [hwire]
          cases j.write.bounded with
          | true => exact Or.inr (Bool.or_true _)
          | false => exact Or.inl (Bool.or_false _)
        · rw [hwire]
          by_cases hb : j.write.bounded = true
          · exact Or.inl (by simp [hb])
          · by_cases hs : (s.wires j.write.conn).shut = true
            · exact Or.inl (by simp [hs])
            · by_contra hno
              rw [not_or, not_or] at hno
              exact hok ⟨j, hj, Bool.not_eq_true _ ▸ hb, Bool.not_eq_true _ ▸ hs, hno.2.2⟩
      · have hwire : (s.giveUp t j base).wires c = s.wires c := Split.setWire_ne _ _ hc
        exact h.over hj (hone hj) hjobs hown (by rw [hwire]) (by rw [hwire])
          (Or.inl (by rw [hwire])) fun e => absurd e hc
  | @drain d n hs =>
      by_cases hc : c = d
      · subst hc
        refine h.congr ?_ ?_ ?_ (fun u i hi _ => ⟨i, hi, rfl, rfl⟩) fun u i hi hic => ⟨i, hi, hic⟩ <;>
          rw [Split.setWire_same]
      · have hwire := Split.setWire_ne s { s.wires d with room := (s.wires d).room + n } hc
        exact h.congr (by rw [hwire]) (by rw [hwire]) (by rw [hwire])
          (fun u i hi _ => ⟨i, hi, rfl, rfl⟩) fun u i hi hic => ⟨i, hi, hic⟩
  | @stall d =>
      by_cases hc : c = d
      · subst hc
        refine h.congr ?_ ?_ ?_ (fun u i hi _ => ⟨i, hi, rfl, rfl⟩) fun u i hi hic => ⟨i, hi, hic⟩ <;>
          rw [Split.setWire_same]
      · have hwire := Split.setWire_ne s { s.wires d with stalled := true } hc
        exact h.congr (by rw [hwire]) (by rw [hwire]) (by rw [hwire])
          (fun u i hi _ => ⟨i, hi, rfl, rfl⟩) fun u i hi hic => ⟨i, hi, hic⟩
  | @shut d =>
      by_cases hc : c = d
      · subst hc
        refine h.of_shut ?_ ?_ ?_ <;> rw [Split.setWire_same]
      · have hwire := Split.setWire_ne s { s.wires d with shut := true } hc
        exact h.congr (by rw [hwire]) (by rw [hwire]) (by rw [hwire])
          (fun u i hi _ => ⟨i, hi, rfl, rfl⟩) fun u i hi hic => ⟨i, hi, hic⟩

/-- In a run in which no frame is torn every connection is intact. -/
theorem intact {s : Split σ α τ γ β} (he : Exclusive M W)
    (h : ReachWhen (split M W) (fun s e => ¬ Torn s e) s) (c : γ) : Intact s c := by
  refine Flow.intact (h.invariant_of (I := fun s => Flow s c) (J := fun s => Reach M s.base ∧ Held W s)
    (fun s hs => ⟨reach_base hs, held_reach he hs⟩) ?_ ?_)
  · rintro s ⟨base, room, -, rfl⟩
    exact flow_init base room c
  · intro s e s' hok hj hf hst
    exact flow_step he hj.1 hj.2 hok (show Split.Step M W s e s' from hst) hf

/-- Nothing more is put on a connection that is shut. -/
theorem out_frozen {s s' : Split σ α τ γ β} {tr : List (Split σ α τ γ β × SplitAct α τ γ)} {c : γ}
    (h : Run (split M W) s tr s') (hs : (s.wires c).shut = true) :
    (s'.wires c).out = (s.wires c).out := by
  have hwire : ∀ (u : Split σ α τ γ β) (d : γ) (w : Wire β), (u.wires c).shut = true →
      (d = c → w.shut = true ∧ w.out = (u.wires c).out) →
        ((u.setWire d w).wires c).shut = true ∧ ((u.setWire d w).wires c).out = (u.wires c).out := by
    intro u d w hu hd
    by_cases hc : c = d
    · subst hc
      rw [Split.setWire_same]
      exact hd rfl
    · rw [Split.setWire_ne _ _ hc]
      exact ⟨hu, rfl⟩
  refine (h.preserves (I := fun u => (u.wires c).shut = true ∧ (u.wires c).out = (s.wires c).out) ?_
    ⟨hs, rfl⟩).2
  rintro u e u' ⟨hsh, hout⟩ hst
  rw [← hout]
  cases (show Split.Step M W u e u' from hst) with
  | plain hidle hw hl hst => exact ⟨hsh, rfl⟩
  | begin hidle hw hl => exact hwire _ _ _ hsh (by rintro rfl; exact ⟨hsh, rfl⟩)
  | put hj hk hroom hopen =>
      refine hwire _ _ _ hsh ?_
      rintro rfl
      rw [hopen] at hsh
      cases hsh
  | next hj hleft hmore => exact ⟨hsh, rfl⟩
  | finish hj hrest hst => exact ⟨hsh, rfl⟩
  | @fail t j base hj hleft hst =>
      refine hwire (({ u with base := base }.setJob t none).release t) _ _ hsh ?_
      rintro rfl
      exact ⟨by simp [hsh], rfl⟩
  | drain hs => exact hwire _ _ _ hsh (by rintro rfl; exact ⟨hsh, rfl⟩)
  | stall => exact hwire _ _ _ hsh (by rintro rfl; exact ⟨hsh, rfl⟩)
  | shut => exact hwire _ _ _ hsh (by rintro rfl; exact ⟨rfl, rfl⟩)

/-- Every frame begun is one that a step writes. -/
theorem begun_all {P : List β → Prop} (hP : ∀ s a w, W.write s a = some w → P w.frame)
    {ok : Split σ α τ γ β → SplitAct α τ γ → Prop} {s : Split σ α τ γ β}
    (h : ReachWhen (split M W) ok s) (c : γ) : ∀ f ∈ (s.wires c).begun, P f := by
  have hset : ∀ (u : Split σ α τ γ β) (d : γ) (w : Wire β),
      (∀ f ∈ (u.wires c).begun, P f) → (d = c → ∀ f ∈ w.begun, P f) →
        ∀ f ∈ ((u.setWire d w).wires c).begun, P f := by
    intro u d w hu hd
    by_cases hc : c = d
    · subst hc
      rw [Split.setWire_same]
      exact hd rfl
    · rw [Split.setWire_ne _ _ hc]
      exact hu
  refine h.invariant (I := fun s => ∀ f ∈ (s.wires c).begun, P f) ?_ ?_
  · rintro s ⟨base, room, -, rfl⟩ f hf
    cases hf
  · intro u e u' _ hu hst
    cases (show Split.Step M W u e u' from hst) with
    | plain hidle hw hl hst => exact hu
    | begin hidle hw hl =>
        refine hset _ _ _ hu ?_
        rintro rfl f hf
        rcases List.mem_append.mp hf with hf | hf
        · exact hu f hf
        · rw [List.mem_singleton.mp hf]
          exact hP _ _ _ hw
    | put hj hk hroom hopen => exact hset _ _ _ hu (by rintro rfl; exact hu)
    | next hj hleft hmore => exact hu
    | finish hj hrest hst => exact hu
    | @fail t j base hj hleft hst =>
        refine hset (({ u with base := base }.setJob t none).release t) _ _ hu ?_
        rintro rfl
        exact hu
    | drain hs => exact hset _ _ _ hu (by rintro rfl; exact hu)
    | stall => exact hset _ _ _ hu (by rintro rfl; exact hu)
    | shut => exact hset _ _ _ hu (by rintro rfl; exact hu)

end

end Lts
