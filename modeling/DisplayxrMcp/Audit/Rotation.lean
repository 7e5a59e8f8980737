/-
  The audit log on disk, shared by processes (src/mcp_audit.c).

  `mcp_audit_append` looks at the size of `mcp-audit.log`, removes and replaces
  `mcp-audit.log.1` if it is large, opens the log and appends one line. Each of
  these is a step of its own: the mutex serialises the calls of one process, not
  those of two. Any number of processes, each in one call at a time.

  A file is an inode, so that a line can land in a file that has been renamed or
  removed since it was opened. `written` is every line so far (with what was on
  disk at the start), oldest first. `rotation_keeps` says what the two files hold
  while no process rotates on an outdated size and no line lands in a file that
  is not the log any more.
-/
import Mathlib.Data.List.DropRight
import DisplayxrMcp.Lib.Lts

namespace DisplayxrMcp.Audit

open Lts

/-- `MAX_FILE_BYTES`. -/
def maxFileBytes : Nat := 1024 * 1024

/-- Where a process stands in `mcp_audit_append(line)`. -/
inductive Pc where
  | idle
  | stat (line : List UInt8)
  | remove (line : List UInt8)
  | rename (line : List UInt8)
  | fopen (line : List UInt8)
  | append (line : List UInt8) (file : Nat)

/-- The files and the processes. `log` and `backup` are the inodes of `mcp-audit.log` and
    `mcp-audit.log.1`. -/
structure State where
  bytes : Nat → List UInt8
  log : Option Nat
  backup : Option Nat
  inodes : Nat
  proc : Nat → Pc
  written : List UInt8

/-- Labels: process `p` takes its next step. -/
inductive Act where
  | call (p : Nat) (line : List UInt8)
  | stat (p : Nat)
  | remove (p : Nat) (ok : Bool)
  | rename (p : Nat) (ok : Bool)
  | fopen (p : Nat)
  | append (p : Nat)

/-- The bytes of a file; none if there is no such file. -/
def contents (bytes : Nat → List UInt8) : Option Nat → List UInt8
  | some i => bytes i
  | none => []

namespace State

def setProc (s : State) (p : Nat) (pc : Pc) : State :=
  { s with proc := Function.update s.proc p pc }

/-- The bytes under a name. -/
def read (s : State) (name : Option Nat) : List UInt8 := contents s.bytes name

/-- `mcp-audit.log.1` followed by `mcp-audit.log`. -/
def kept (s : State) : List UInt8 := s.read s.backup ++ s.read s.log

end State

/-- One step. A `remove` succeeds only if the file is there, and so does a `rename`, which
    replaces the target. -/
inductive Step (s : State) : Act → State → Prop where
  | call {p : Nat} {line : List UInt8} (hp : s.proc p = .idle) :
      Step s (.call p line) (s.setProc p (.stat line))
  | stat {p : Nat} {line : List UInt8} (hp : s.proc p = .stat line) :
      Step s (.stat p) (s.setProc p (match s.log with
        | some i => if (s.bytes i).length < maxFileBytes then .fopen line else .remove line
        | none => .fopen line))
  | removed {p : Nat} {line : List UInt8} {i : Nat} (hp : s.proc p = .remove line)
      (hi : s.backup = some i) :
      Step s (.remove p true) { s.setProc p (.rename line) with backup := none }
  | notRemoved {p : Nat} {line : List UInt8} (hp : s.proc p = .remove line) :
      Step s (.remove p false) (s.setProc p (.rename line))
  | renamed {p : Nat} {line : List UInt8} {i : Nat} (hp : s.proc p = .rename line)
      (hi : s.log = some i) :
      Step s (.rename p true) { s.setProc p (.fopen line) with log := none, backup := some i }
  | notRenamed {p : Nat} {line : List UInt8} (hp : s.proc p = .rename line) :
      Step s (.rename p false) (s.setProc p (.fopen line))
  | opened {p : Nat} {line : List UInt8} {i : Nat} (hp : s.proc p = .fopen line)
      (hi : s.log = some i) : Step s (.fopen p) (s.setProc p (.append line i))
  /-- `fopen` creates the file. -/
  | created {p : Nat} {line : List UInt8} (hp : s.proc p = .fopen line) (hi : s.log = none) :
      Step s (.fopen p) { s.setProc p (.append line s.inodes) with
        log := some s.inodes
        inodes := s.inodes + 1 }
  | append {p : Nat} {line : List UInt8} {i : Nat} (hp : s.proc p = .append line i) :
      Step s (.append p) { s.setProc p .idle with
        bytes := Function.update s.bytes i (s.bytes i ++ line)
        written := s.written ++ line }

/-- Any files, no call under way; a new inode is empty. -/
structure Fresh (s : State) : Prop where
  idle : ∀ p, s.proc p = .idle
  log : ∀ i, s.log = some i → i < s.inodes
  backup : ∀ i, s.backup = some i → i < s.inodes ∧ s.log ≠ some i
  empty : ∀ i, s.inodes ≤ i → s.bytes i = []
  written : s.written = s.kept

def auditing : Lts.System State Act where
  init := Fresh
  step := Step

/-- The two files end with the last `maxFileBytes` bytes that were written. -/
def KeepsRecent (s : State) : Prop := s.written.rtake maxFileBytes <:+ s.kept

/-- `mcp-audit.log.1` is given up only when it is empty or the log has `maxFileBytes`. -/
def Covered (s : State) : Prop := s.read s.backup = [] ∨ maxFileBytes ≤ (s.read s.log).length

/-- A rotation takes effect only on a log that is large, and a line goes to the end of what is
    kept. -/
def Timely (s : State) : Act → Prop
  | .remove _ true => Covered s
  | .rename _ true => Covered s
  | .append p => ∀ line i, s.proc p = .append line i →
      s.log = some i ∨ s.backup = some i ∧ s.read s.log = []
  | _ => True

theorem timely_append {s : State} {p i : Nat} {line : List UInt8} (hp : s.proc p = .append line i)
    (hlog : s.log = some i) : Timely s (.append p) := by
  intro line' j hj
  cases hp.symm.trans hj
  exact Or.inl hlog

/-! ## The last bytes -/

theorem rtake_length_le {α : Type} (l : List α) (n : Nat) : (l.rtake n).length ≤ n := by
  unfold List.rtake
  rw [List.length_drop]
  omega

/-- What is appended to both goes behind the last bytes. -/
theorem rtake_append_suffix {α : Type} {l m : List α} {n : Nat} (h : l.rtake n <:+ m)
    (t : List α) : (l ++ t).rtake n <:+ m ++ t := by
  have hdrop : l.rtake n ++ t = (l ++ t).drop (l.length - n) :=
    (List.drop_append_of_le_length (Nat.sub_le ..)).symm
  have hsuffix : (l ++ t).rtake n <:+ l.rtake n ++ t := by
    rw [hdrop]
    refine List.drop_suffix_drop_left _ ?_
    rw [List.length_append]
    omega
  exact hsuffix.trans (List.suffix_append_self_iff.mpr h)

/-- The last bytes of a list that are at the end of `a ++ b` are at the end of `b`, if that is
    long enough. -/
theorem rtake_suffix_right {α : Type} {l a b : List α} {n : Nat} (h : l.rtake n <:+ a ++ b)
    (hb : n ≤ b.length) : l.rtake n <:+ b :=
  List.suffix_of_suffix_length_le h (List.suffix_append a b) ((rtake_length_le l n).trans hb)

/-! ## Steps -/

/-- The files are different ones, and were created. -/
structure Wf (s : State) : Prop where
  log : ∀ i, s.log = some i → i < s.inodes
  backup : ∀ i, s.backup = some i → i < s.inodes ∧ s.log ≠ some i
  opened : ∀ p line i, s.proc p = .append line i → i < s.inodes
  empty : ∀ i, s.inodes ≤ i → s.bytes i = []

@[simp] theorem setProc_same (s : State) (p : Nat) (pc : Pc) : (s.setProc p pc).proc p = pc :=
  Function.update_self ..

theorem setProc_ne (s : State) {p q : Nat} (pc : Pc) (h : q ≠ p) :
    (s.setProc p pc).proc q = s.proc q := Function.update_of_ne h ..

/-- A process that opens no file, or a file that was created. -/
theorem Wf.setProc {s : State} (h : Wf s) (p : Nat) {pc : Pc}
    (hpc : ∀ line i, pc = .append line i → i < s.inodes) : Wf (s.setProc p pc) := by
  refine ⟨h.log, h.backup, fun q line i hq => ?_, h.empty⟩
  by_cases hqp : q = p
  · subst hqp
    rw [setProc_same] at hq
    exact hpc line i hq
  · rw [setProc_ne _ _ hqp] at hq
    exact h.opened q line i hq

theorem wf_fresh {s : State} (h : Fresh s) : Wf s := by
  refine ⟨h.log, h.backup, fun p line i hp => ?_, h.empty⟩
  rw [h.idle p] at hp
  cases hp

theorem wf_step {s s' : State} {a : Act} (hst : Step s a s') (h : Wf s) : Wf s' := by
  cases hst with
  | call hp => exact h.setProc _ fun _ _ he => by cases he
  | @stat p line hp =>
      refine h.setProc p fun line' i he => ?_
      split at he
      · split at he <;> cases he
      · cases he
  | @removed p line i hp hi =>
      have h' : Wf (s.setProc p (.rename line)) := h.setProc p fun _ _ he => by cases he
      exact ⟨h'.log, fun j hj => (by cases hj), h'.opened, h'.empty⟩
  | notRemoved hp => exact h.setProc _ fun _ _ he => by cases he
  | @renamed p line i hp hi =>
      have h' : Wf (s.setProc p (.fopen line)) := h.setProc p fun _ _ he => by cases he
      refine ⟨fun j hj => (by cases hj), fun j hj => ?_, h'.opened, h'.empty⟩
      cases hj
      exact ⟨h.log i hi, fun he => by cases he⟩
  | notRenamed hp => exact h.setProc _ fun _ _ he => by cases he
  | @opened p line i hp hi =>
      refine h.setProc p fun line' j he => ?_
      cases he
      exact h.log i hi
  | @created p line hp hi =>
      refine ⟨fun j hj => ?_, fun j hj => ?_, fun q line' j hq => ?_, fun j hj => ?_⟩
      · cases hj
        exact Nat.lt_succ_self _
      · obtain ⟨hlt, -⟩ := h.backup j hj
        refine ⟨Nat.lt_succ_of_lt hlt, fun he => ?_⟩
        cases he
        omega
      · by_cases hqp : q = p
        · subst hqp
          cases (setProc_same ..).symm.trans hq
          exact Nat.lt_succ_self _
        · exact Nat.lt_succ_of_lt (h.opened q line' j ((setProc_ne _ _ hqp).symm.trans hq))
      · exact h.empty j (Nat.le_of_succ_le hj)
  | @append p line i hp =>
      have h' : Wf (s.setProc p .idle) := h.setProc p fun _ _ he => by cases he
      refine ⟨h'.log, h'.backup, h'.opened, fun j hj => ?_⟩
      have hlt := h.opened p line i hp
      have hji : j ≠ i := by
        rintro rfl
        exact absurd hj (Nat.not_le_of_lt hlt)
      exact (Function.update_of_ne hji ..).trans (h.empty j hj)

theorem contents_update_ne {bytes : Nat → List UInt8} {i : Nat} {name : Option Nat}
    (h : name ≠ some i) (b : List UInt8) :
    contents (Function.update bytes i b) name = contents bytes name := by
  cases name with
  | none => rfl
  | some j =>
      have hji : j ≠ i := fun he => h (congrArg some he)
      exact Function.update_of_ne hji ..

theorem contents_update_same (bytes : Nat → List UInt8) (i : Nat) (b : List UInt8) :
    contents (Function.update bytes i b) (some i) = b := Function.update_self ..

/-- A line that goes to the end of what is kept. -/
theorem kept_append {s : State} (hw : Wf s) {i : Nat} {line : List UInt8}
    (h : s.log = some i ∨ s.backup = some i ∧ s.read s.log = []) :
    contents (Function.update s.bytes i (s.bytes i ++ line)) s.backup ++
      contents (Function.update s.bytes i (s.bytes i ++ line)) s.log = s.kept ++ line := by
  unfold State.kept State.read at *
  rcases h with hlog | ⟨hbackup, hempty⟩
  · have hne : s.backup ≠ some i := fun hb => (hw.backup i hb).2 hlog
    rw [contents_update_ne hne, hlog, contents_update_same, List.append_assoc]
    rfl
  · have hne : s.log ≠ some i := (hw.backup i hbackup).2
    rw [contents_update_ne hne, hempty, hbackup, contents_update_same, List.append_nil,
      List.append_nil]
    rfl

/-- What is kept stays the end of what was written. -/
theorem keepsRecent_step {s s' : State} {a : Act} (hst : Step s a s') (hw : Wf s)
    (hok : Timely s a) (h : KeepsRecent s) : KeepsRecent s' := by
  -- the log alone has the last bytes when the backup is given up
  have hlog : Covered s → s.written.rtake maxFileBytes <:+ s.read s.log := by
    rintro (hempty | hlarge)
    · have h' : s.written.rtake maxFileBytes <:+ s.read s.backup ++ s.read s.log := h
      rwa [hempty, List.nil_append] at h'
    · exact rtake_suffix_right h hlarge
  cases hst with
  | call hp => exact h
  | stat hp => exact h
  | notRemoved hp => exact h
  | notRenamed hp => exact h
  | opened hp hi => exact h
  | removed hp hi => exact hlog hok
  | @renamed p line i hp hi =>
      have hread := hlog hok
      rw [hi] at hread
      show s.written.rtake maxFileBytes <:+ s.bytes i ++ []
      rw [List.append_nil]
      exact hread
  | created hp hi =>
      have h' : s.written.rtake maxFileBytes <:+ s.read s.backup ++ s.read s.log := h
      rw [hi] at h'
      show s.written.rtake maxFileBytes <:+ s.read s.backup ++ s.bytes s.inodes
      rw [hw.empty _ (Nat.le_refl _)]
      exact h'
  | @append p line i hp =>
      have hkept : _ = s.kept ++ line := kept_append hw (hok line i hp)
      show (s.written ++ line).rtake maxFileBytes <:+ _ ++ _
      refine (rtake_append_suffix h line).trans ?_
      rw [← hkept]
      exact List.suffix_rfl

/-- In a run of timely steps the two files end with the last bytes written. -/
theorem keepsRecent_run {s s' : State} {tr : List (State × Act)} (hs : Fresh s)
    (hr : Run auditing s tr s') (hm : Meets Timely tr) : KeepsRecent s' := by
  have hreach : ReachWhen auditing Timely s' := ⟨s, tr, hs, hr, hm⟩
  refine hreach.invariant_of (J := Wf) (fun s hs => ?_) (fun s hs => ?_)
    fun s e s' hok hw hk hst => keepsRecent_step hst hw hok hk
  · exact hs.invariant (fun s hs => wf_fresh hs) fun s e s' _ hw hst =>
      wf_step (show Step s e s' from hst) hw
  · unfold KeepsRecent
    rw [show s.written = s.kept from hs.written]
    exact List.drop_suffix ..

/-! ## One process -/

/-- The process a label moves. -/
def Act.proc : Act → Nat
  | .call p _ | .stat p | .remove p _ | .rename p _ | .fopen p | .append p => p

/-- What the process has seen of the log is so still. -/
def Pc.Current (log : Option Nat) (size : Nat) : Pc → Prop
  | .remove _ | .rename _ => maxFileBytes ≤ size
  | .append _ i => log = some i
  | _ => True

def UpToDate (s : State) (q : Nat) : Prop := (s.proc q).Current s.log (s.read s.log).length

theorem upToDate_timely {s s' : State} {a : Act} (hst : Step s a s') (h : UpToDate s a.proc) :
    Timely s a := by
  unfold UpToDate at h
  cases hst with
  | call hp => trivial
  | stat hp => trivial
  | notRemoved hp => trivial
  | notRenamed hp => trivial
  | opened hp hi => trivial
  | created hp hi => trivial
  | removed hp hi =>
      dsimp only [Act.proc] at h
      rw [hp] at h
      exact Or.inr h
  | renamed hp hi =>
      dsimp only [Act.proc] at h
      rw [hp] at h
      exact Or.inr h
  | append hp =>
      dsimp only [Act.proc] at h
      rw [hp] at h
      exact timely_append hp h

/-- A step of the process itself: nothing changes behind its back. -/
theorem upToDate_step {s s' : State} {a : Act} (hst : Step s a s') (h : UpToDate s a.proc) :
    UpToDate s' a.proc := by
  unfold UpToDate at h
  have hset : ∀ {t : State} {p : Nat} {pc : Pc}, t.proc = (s.setProc p pc).proc →
      pc.Current t.log (t.read t.log).length → UpToDate t p := by
    intro t p pc ht hpc
    unfold UpToDate
    rw [ht, setProc_same]
    exact hpc
  cases hst with
  | call hp => exact hset rfl trivial
  | @stat p line hp =>
      refine hset rfl ?_
      dsimp only [State.setProc]
      split
      · next i hi =>
          split
          · trivial
          · next hlarge =>
              show maxFileBytes ≤ (s.read s.log).length
              rw [hi]
              exact Nat.le_of_not_lt hlarge
      · trivial
  | notRemoved hp =>
      dsimp only [Act.proc] at h
      rw [hp] at h
      exact hset rfl h
  | notRenamed hp => exact hset rfl trivial
  | opened hp hi => exact hset rfl hi
  | created hp hi => exact hset rfl rfl
  | removed hp hi =>
      dsimp only [Act.proc] at h
      rw [hp] at h
      exact hset rfl h
  | renamed hp hi => exact hset rfl trivial
  | append hp => exact hset rfl trivial

/-- Left to itself, a process never loses what is recent. -/
theorem alone_keeps {s s' : State} {tr : List (State × Act)} {q : Nat} (hs : Fresh s)
    (hr : Run auditing s tr s') (hq : ∀ e ∈ tr, e.2.proc = q) : KeepsRecent s' := by
  have hstart : UpToDate s q := by
    unfold UpToDate
    rw [hs.idle q]
    trivial
  have key : UpToDate s' q ∧ Meets Timely tr := by
    induction hr with
    | refl => exact ⟨hstart, meets_nil _⟩
    | @tail tr t a u hrun hst ih =>
        obtain ⟨hup, hmeets⟩ := ih fun e he => hq e (List.mem_append_left _ he)
        have ha : a.proc = q := hq (t, a) (by simp)
        subst ha
        exact ⟨upToDate_step (show Step t a u from hst) hup,
          meets_snoc.mpr ⟨hmeets, upToDate_timely (show Step t a u from hst) hup⟩⟩
  exact keepsRecent_run hs hr key.2

/-! ## Many processes -/

/-- Whatever the number of processes: in a run of timely steps the two files end with the last
    1 MiB that was written. -/
theorem rotation_keeps {s : State} (h : ReachWhen auditing Timely s) : KeepsRecent s := by
  obtain ⟨s₀, tr, hi, hr, hm⟩ := h
  exact keepsRecent_run hi hr hm

theorem reach_step {ok : State → Act → Prop} {s t : State} (h : ReachWhen auditing ok s) (a : Act)
    (hok : ok s a) (hst : Step s a t) : ReachWhen auditing ok t := h.step hok hst

/-- A log of 1 MiB. -/
def large : State where
  bytes := fun i => if i = 0 then List.replicate maxFileBytes 0x61 else []
  log := some 0
  backup := none
  inodes := 1
  proc := fun _ => .idle
  written := List.replicate maxFileBytes 0x61

theorem large_fresh : Fresh large := by
  refine ⟨fun _ => rfl, fun i hi => ?_, fun i hi => (by cases hi), fun i hi => ?_, rfl⟩
  · cases hi
    decide
  · exact if_neg (Nat.ne_of_gt hi)

theorem large_length : maxFileBytes ≤ (large.bytes 0).length := by
  show maxFileBytes ≤ (List.replicate maxFileBytes (0x61 : UInt8)).length
  rw [List.length_replicate]

theorem Step.statLarge {s : State} {p i : Nat} {line : List UInt8} (hp : s.proc p = .stat line)
    (hi : s.log = some i) (h : maxFileBytes ≤ (s.bytes i).length) :
    Step s (.stat p) (s.setProc p (.remove line)) := by
  have hst := Step.stat hp
  rw [hi] at hst
  dsimp only at hst
  rwa [if_neg (Nat.not_lt_of_le h)] at hst

theorem Step.statSmall {s : State} {p i : Nat} {line : List UInt8} (hp : s.proc p = .stat line)
    (hi : s.log = some i) (h : (s.bytes i).length < maxFileBytes) :
    Step s (.stat p) (s.setProc p (.fopen line)) := by
  have hst := Step.stat hp
  rw [hi] at hst
  dsimp only at hst
  rwa [if_pos h] at hst

/-- Two processes, and the first rotates: the second looks at the size after that, and its line
    goes behind the first one's in the new log. -/
theorem rotation_keeps_rotated : ∃ s, s.written = List.replicate maxFileBytes 0x61 ++ [0x78, 0x79] ∧
    s.read s.backup = List.replicate maxFileBytes 0x61 ∧ s.read s.log = [0x78, 0x79] ∧
    KeepsRecent s := by
  have hne : (1 : Nat) ≠ 0 := by decide
  have h₀ : ReachWhen auditing Timely large := ReachWhen.init large_fresh
  have h₁ := reach_step h₀ (.call 0 [0x78]) trivial (.call rfl)
  have h₂ := reach_step h₁ (.call 1 [0x79]) trivial (.call (setProc_ne _ _ hne))
  -- the first rotates and appends
  have h₃ := reach_step h₂ (.stat 0) trivial (.statLarge rfl rfl large_length)
  have h₄ := reach_step h₃ (.remove 0 false) trivial (.notRemoved rfl)
  have h₅ := reach_step h₄ (.rename 0 true) (Or.inl rfl) (.renamed rfl rfl)
  have h₆ := reach_step h₅ (.fopen 0) trivial (.created rfl rfl)
  have h₇ := reach_step h₆ (.append 0) (timely_append rfl rfl) (.append rfl)
  -- the second sees one byte
  have h₈ := reach_step h₇ (.stat 1) trivial (.statSmall rfl rfl (by decide))
  have h₉ := reach_step h₈ (.fopen 1) trivial (.opened rfl rfl)
  have h := reach_step h₉ (.append 1) (timely_append rfl rfl) (.append rfl)
  exact ⟨_, List.append_assoc _ [0x78] [0x79], rfl, rfl, rotation_keeps h⟩

/-- Two processes see the size before either rotates: the second rotation drops the 1 MiB that the
    first one saved. -/
theorem rotation_keeps_race : ∃ s, Reach auditing s ∧ (∀ p, s.proc p = .idle) ∧
    s.kept.length < maxFileBytes ∧ maxFileBytes ≤ s.written.length ∧ ¬ KeepsRecent s := by
  have hne : (1 : Nat) ≠ 0 := by decide
  have h₀ : Reach auditing large := ReachWhen.init large_fresh
  -- both look
  have h₁ := reach_step h₀ (.call 0 [0x78]) trivial (.call rfl)
  have h₂ := reach_step h₁ (.call 1 [0x79]) trivial (.call (setProc_ne _ _ hne))
  have h₃ := reach_step h₂ (.stat 0) trivial (.statLarge rfl rfl large_length)
  have h₄ := reach_step h₃ (.stat 1) trivial (.statLarge rfl rfl large_length)
  -- the first rotates and appends
  have h₅ := reach_step h₄ (.remove 0 false) trivial (.notRemoved rfl)
  have h₆ := reach_step h₅ (.rename 0 true) trivial (.renamed rfl rfl)
  have h₇ := reach_step h₆ (.fopen 0) trivial (.created rfl rfl)
  have h₈ := reach_step h₇ (.append 0) trivial (.append rfl)
  -- the second rotates and appends
  have h₉ := reach_step h₈ (.remove 1 true) trivial (.removed rfl rfl)
  have h₁₀ := reach_step h₉ (.rename 1 true) trivial (.renamed rfl rfl)
  have h₁₁ := reach_step h₁₀ (.fopen 1) trivial (.created rfl rfl)
  have h := reach_step h₁₁ (.append 1) trivial (.append rfl)
  have hwritten : maxFileBytes ≤
      (List.replicate maxFileBytes (0x61 : UInt8) ++ [0x78] ++ [0x79]).length := by
    rw [List.length_append, List.length_append, List.length_replicate]
    omega
  have hkept : ([0x78, 0x79] : List UInt8).length < maxFileBytes := by decide
  refine ⟨_, h, fun p => ?_, hkept, hwritten, fun hk => ?_⟩
  · by_cases h1 : p = 1
    · subst h1
      rfl
    · by_cases h0 : p = 0
      · subst h0
        rfl
      · simp [State.setProc, large, h0, h1]
  · have hle := List.IsSuffix.length_le hk
    have hfull : maxFileBytes ≤ ((List.replicate maxFileBytes (0x61 : UInt8) ++ [0x78] ++
        [0x79]).rtake maxFileBytes).length := by
      unfold List.rtake
      rw [List.length_drop]
      omega
    exact absurd (hfull.trans hle) (Nat.not_le_of_lt hkept)

end DisplayxrMcp.Audit
