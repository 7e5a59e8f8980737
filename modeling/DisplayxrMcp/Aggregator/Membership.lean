/-
  Membership bookkeeping: which applicants are claimed, and by whom
  (adapter/workspace_aggregator.c, "membership poll", connecting_remove).

  An applicant is an app's pid or the shell role. It is claimed when it is in
  `connecting` (or `shell_connecting` is set), and the claim is held by the poll
  iteration that has yet to start its setup thread or by that setup thread.
  `Membership` says that claims and backend slots are unique and that a holder's
  claim is there; `Covered` says that a claim has a holder. The second fails
  exactly when `spawn_setup` has run out of memory.
-/
import DisplayxrMcp.Aggregator.Exec
import DisplayxrMcp.Aggregator.Wf

namespace DisplayxrMcp

open Lib Cjson Lts

/-! ## Lists -/

/-- Removing element `i` by moving the last one into its place. -/
theorem swapRemove_perm {α : Type} {l : List α} {last : α} (i : Nat) (hi : i < l.length)
    (hlast : l.getLast? = some last) : ((l.set i last).dropLast).Perm (l.eraseIdx i) := by
  obtain ⟨ini, rfl⟩ : ∃ ini, l = ini ++ [last] := by
    obtain ⟨ini, rfl⟩ := List.getLast?_eq_some_iff.mp hlast
    exact ⟨ini, rfl⟩
  by_cases hlt : i < ini.length
  · rw [List.set_append_left _ _ hlt, List.dropLast_concat, List.eraseIdx_append_of_lt_length hlt]
    have hsplit : ini = ini.take i ++ ini[i] :: ini.drop (i + 1) := by simp
    have hset : ini.set i last = ini.take i ++ last :: ini.drop (i + 1) :=
      List.set_eq_take_append_cons_drop.trans (if_pos hlt)
    rw [hset, List.eraseIdx_eq_take_drop_succ, List.append_assoc]
    exact List.Perm.append_left _ (List.perm_append_singleton last _).symm
  · have he : i = ini.length := by
      simp only [List.length_append, List.length_singleton] at hi
      omega
    subst he
    rw [List.set_append_right _ _ (Nat.le_refl _), Nat.sub_self, List.set_cons_zero,
      List.dropLast_concat, List.eraseIdx_append_of_length_le (Nat.le_refl _)]
    simp

/-! ## Applicants -/

/-- What a setup is for: an app's pid, or the shell role. -/
abbrev Applicant := Option ℤ

def applicant (isShell : Bool) (pid : ℤ) : Applicant := if isShell then none else some pid

/-- `connecting[]` and `shell_connecting`. -/
def Claimed (g : Global) : Applicant → Prop
  | none => g.shellConnecting = true
  | some pid => pid ∈ g.connecting

/-- The applicant a slot's backend is. -/
def slotApplicant (g : Global) (i : Fin maxBackends) : Option Applicant :=
  (g.backends i).map fun b => applicant b.isShell b.pid

/-- The applicant a setup thread is for. -/
def Thread.applicant : Thread → Option Applicant
  | .setup sh pid _ => some (DisplayxrMcp.applicant sh pid)
  | _ => none

/-- A setup thread that has registered its backend. -/
def Thread.registered : Thread → Bool
  | .setup _ _ (.remove true) => true
  | _ => false

/-- The applicants the poll iteration has claimed and not yet started a thread for. -/
def PollPc.pending : PollPc → List Applicant
  | .scan => []
  | .spawn fresh shell => fresh.map some ++ (if shell then [none] else [])

/-- Claims and backend slots are unique, and holders hold claims. -/
structure Membership (s : Sys) : Prop where
  slotOnce : Once (slotApplicant s.g)
  setupOnce : Once fun t => (s.threads t).applicant
  setupHeld : ∀ t k, (s.threads t).applicant = some k → Claimed s.g k ∧ k ∉ s.poll.pending
  setupNew : ∀ t k, (s.threads t).applicant = some k → (s.threads t).registered = false →
    ∀ i, slotApplicant s.g i ≠ some k
  pendOnce : s.poll.pending.Nodup
  pendHeld : ∀ k ∈ s.poll.pending, Claimed s.g k ∧ ∀ i, slotApplicant s.g i ≠ some k
  nodup : s.g.connecting.Nodup
  room : s.g.connecting.length ≤ maxBackends

/-- A claim has a holder. -/
def Held (s : Sys) (k : Applicant) : Prop :=
  k ∈ s.poll.pending ∨ ∃ t, (s.threads t).applicant = some k

def Covered (s : Sys) : Prop := ∀ k, Claimed s.g k → Held s k

theorem membership_start (platform : Platform) (expose : Bool) :
    Membership (Sys.start platform expose) := by
  refine ⟨?_, ?_, ?_, ?_, List.nodup_nil, ?_, List.nodup_nil, Nat.zero_le _⟩
  · intro i j k h; cases h
  · intro t t' k h; cases h
  · intro t k h; cases h
  · intro t k h; cases h
  · intro k h; cases h

theorem covered_start (platform : Platform) (expose : Bool) :
    Covered (Sys.start platform expose) := by
  intro k h
  cases k with
  | none => cases h
  | some pid => cases h

/-! ## The functions -/

/-- `backend_known`: a slot has the applicant, or it is claimed. -/
theorem backendKnown_iff {g : Global} {isShell : Bool} {pid : ℤ} :
    backendKnown g isShell pid = true ↔
      (∃ i, slotApplicant g i = some (applicant isShell pid)) ∨
        Claimed g (applicant isShell pid) := by
  unfold backendKnown
  rw [Bool.or_eq_true]
  refine or_congr ?_ ?_
  · rw [List.any_eq_true]
    constructor
    · rintro ⟨i, -, hi⟩
      refine ⟨i, ?_⟩
      cases hb : g.backends i with
      | none => rw [hb] at hi; cases hi
      | some b => cases isShell <;> cases hsh : b.isShell <;> simp_all [slotApplicant, applicant]
    · rintro ⟨i, hi⟩
      refine ⟨i, List.mem_finRange i, ?_⟩
      cases hb : g.backends i with
      | none => rw [slotApplicant, hb] at hi; cases hi
      | some b => cases isShell <;> cases hsh : b.isShell <;> simp_all [slotApplicant, applicant]
  · cases isShell with
    | true => exact Iff.rfl
    | false => simp [applicant, Claimed]

/-- `connecting_remove` drops one claim. -/
theorem connectingRemove_spec {g : Global} (isShell : Bool) (pid : ℤ) (hn : g.connecting.Nodup) :
    (∀ k, Claimed (connectingRemove g isShell pid) k ↔
        Claimed g k ∧ k ≠ applicant isShell pid) ∧
      (connectingRemove g isShell pid).connecting.Nodup ∧
      (connectingRemove g isShell pid).connecting.length ≤ g.connecting.length := by
  cases isShell with
  | true =>
      refine ⟨fun k => ?_, hn, Nat.le_refl _⟩
      cases k with
      | none => simp [connectingRemove, Claimed, applicant]
      | some p => simp [connectingRemove, Claimed, applicant]
  | false =>
      have hclaim : ∀ l : List ℤ, (∀ q, q ∈ l ↔ q ∈ g.connecting ∧ q ≠ pid) →
          ∀ k, Claimed { g with connecting := l } k ↔ Claimed g k ∧ k ≠ applicant false pid := by
        intro l hl k
        cases k with
        | none => simp [Claimed, applicant]
        | some q => simpa [Claimed, applicant] using hl q
      unfold connectingRemove
      simp only [Bool.false_eq_true, if_false]
      cases hf : g.connecting.findIdx? fun p => decide (p = pid) with
      | none =>
          have hmem : pid ∉ g.connecting := by
            intro hmem
            have hnone := List.findIdx?_eq_none_iff.mp hf pid hmem
            simp at hnone
          refine ⟨fun k => ?_, hn, Nat.le_refl _⟩
          refine (hclaim g.connecting (fun q => ?_) k)
          constructor
          · intro hq
            exact ⟨hq, fun e => hmem (e ▸ hq)⟩
          · exact And.left
      | some i =>
          obtain ⟨hi, hpi, -⟩ := List.findIdx?_eq_some_iff_getElem.mp hf
          have hne : g.connecting ≠ [] := fun e => by rw [e] at hi; cases hi
          have hlast := List.getLast?_eq_some_getLast hne
          have hperm := swapRemove_perm i hi hlast
          have herase : g.connecting.eraseIdx i = g.connecting.erase pid := by
            have hpid : g.connecting[i] = pid := of_decide_eq_true hpi
            rw [← hpid, hn.erase_getElem]
          rw [hlast]
          rw [herase] at hperm
          refine ⟨hclaim _ fun q => ?_, ?_, ?_⟩
          · rw [hperm.mem_iff, hn.mem_erase_iff]
            exact and_comm
          · exact hperm.nodup_iff.mpr (hn.erase pid)
          · rw [hperm.length_eq]
            exact List.length_erase_le

/-- The poll loop claims new pids, each once, for which there is no slot, up to the limit. -/
theorem pollFold_spec (self : ℤ) (g : Global) (hn : g.connecting.Nodup)
    (hroom : g.connecting.length ≤ maxBackends) :
    ∀ (pids : List ℤ), ∃ fresh,
      pids.foldl (pollPid self) (g, []) = ({ g with connecting := g.connecting ++ fresh }, fresh) ∧
      (g.connecting ++ fresh).Nodup ∧ (g.connecting ++ fresh).length ≤ maxBackends ∧
      ∀ p ∈ fresh, ∀ i, slotApplicant g i ≠ some (some p) := by
  intro pids
  induction pids using List.reverseRecOn with
  | nil => exact ⟨[], by simp, by simpa using hn, by simpa using hroom, fun p hp => by cases hp⟩
  | append_singleton pids pid ih =>
      obtain ⟨fresh, he, hnd, hlen, hnew⟩ := ih
      rw [List.foldl_append, he]
      simp only [List.foldl_cons, List.foldl_nil, pollPid]
      by_cases hself : pid = self
      · rw [if_pos hself]
        exact ⟨fresh, rfl, hnd, hlen, hnew⟩
      · rw [if_neg hself]
        by_cases hadd : backendKnown { g with connecting := g.connecting ++ fresh } false pid = false ∧
            (g.connecting ++ fresh).length < maxBackends
        · rw [if_pos hadd]
          have hknown := hadd.1
          rw [Bool.eq_false_iff, ne_eq, backendKnown_iff] at hknown
          push Not at hknown
          obtain ⟨hslot, hclaim⟩ := hknown
          have hmem : pid ∉ g.connecting ++ fresh := hclaim
          refine ⟨fresh ++ [pid], by simp [List.append_assoc], ?_, ?_, ?_⟩
          · rw [← List.append_assoc]
            exact List.nodup_append.mpr ⟨hnd, List.nodup_singleton pid, fun a ha b hb => by
              rw [List.mem_singleton.mp hb]
              exact fun e => hmem (e ▸ ha)⟩
          · rw [← List.append_assoc, List.length_append, List.length_singleton]
            exact hadd.2
          · intro p hp
            rcases List.mem_append.mp hp with hp | hp
            · exact hnew p hp
            · rw [List.mem_singleton.mp hp]
              exact hslot
        · rw [if_neg hadd]
          exact ⟨fresh, rfl, hnd, hlen, hnew⟩

/-! ## What a step does to claims -/

/-- Claims and holders stay; slots may be freed. -/
structure Quiet (s s' : Sys) : Prop where
  pending : s'.poll.pending = s.poll.pending
  connecting : s'.g.connecting = s.g.connecting
  shell : s'.g.shellConnecting = s.g.shellConnecting
  slots : ∀ i k, slotApplicant s'.g i = some k → slotApplicant s.g i = some k
  threads : ∀ t, (s'.threads t).applicant = (s.threads t).applicant
  registered : ∀ t, (s'.threads t).registered = false → (s.threads t).registered = false

theorem Quiet.claimed {s s' : Sys} (h : Quiet s s') (k : Applicant) :
    Claimed s'.g k ↔ Claimed s.g k := by
  cases k with
  | none => exact (congrArg (· = true) h.shell).to_iff
  | some pid => exact (congrArg (pid ∈ ·) h.connecting).to_iff

/-- Everything a step can do to the claims and their holders. -/
inductive ClaimStep (s s' : Sys) : Act → Prop where
  | quiet {a} (h : Quiet s s') (ha : a ≠ .pollSpawn .noMemory) : ClaimStep s s' a
  /-- A poll iteration claims the new applicants. -/
  | scanned {pids self} (hs : s.poll = .scan) (ht : s'.threads = s.threads)
      (hslot : slotApplicant s'.g = slotApplicant s.g)
      (hclaim : ∀ k, Claimed s'.g k ↔ Claimed s.g k ∨ k ∈ s'.poll.pending)
      (hnew : ∀ k ∈ s'.poll.pending, ¬ Claimed s.g k ∧ ∀ i, slotApplicant s.g i ≠ some k)
      (honce : s'.poll.pending.Nodup) (hn : s'.g.connecting.Nodup)
      (hroom : s'.g.connecting.length ≤ maxBackends) : ClaimStep s s' (.pollScan pids self)
  /-- The iteration starts the setup thread of its next applicant, or cannot and gives the
      claim back, or runs out of memory and forgets about it. -/
  | spawned {r} (k : Applicant) (hpend : s.poll.pending = k :: s'.poll.pending)
      (hslot : slotApplicant s'.g = slotApplicant s.g)
      (hn : s'.g.connecting.Nodup) (hroom : s'.g.connecting.length ≤ maxBackends)
      (hr : (r = .noMemory ∧ s'.threads = s.threads ∧ ∀ k', Claimed s'.g k' ↔ Claimed s.g k') ∨
        (r = .noThread ∧ s'.threads = s.threads ∧
          ∀ k', Claimed s'.g k' ↔ Claimed s.g k' ∧ k' ≠ k) ∨
        ∃ t, r = .thread t ∧ s.threads t = .gone ∧ (s'.threads t).applicant = some k ∧
          (s'.threads t).registered = false ∧ (∀ u, u ≠ t → s'.threads u = s.threads u) ∧
          ∀ k', Claimed s'.g k' ↔ Claimed s.g k') :
      ClaimStep s s' (.pollSpawn r)
  /-- A setup thread registers its backend. -/
  | joined {t exe r} (k : Applicant) (idx : Fin maxBackends)
      (ht : (s.threads t).applicant = some k) (hreg : (s.threads t).registered = false)
      (hpend : s'.poll.pending = s.poll.pending) (hconn : s'.g.connecting = s.g.connecting)
      (hshell : s'.g.shellConnecting = s.g.shellConnecting)
      (hslot : ∀ i, slotApplicant s'.g i = if i = idx then some k else slotApplicant s.g i)
      (happ : ∀ u, (s'.threads u).applicant = (s.threads u).applicant)
      (hother : ∀ u, u ≠ t → (s'.threads u).registered = (s.threads u).registered)
      (hreg' : (s'.threads t).registered = true) :
      ClaimStep s s' (.register t exe r)
  /-- A setup thread ends and gives its claim back. -/
  | removed {t} (k : Applicant) (ht : (s.threads t).applicant = some k)
      (ht' : (s'.threads t).applicant = none) (hother : ∀ u, u ≠ t → s'.threads u = s.threads u)
      (hpend : s'.poll.pending = s.poll.pending)
      (hslot : slotApplicant s'.g = slotApplicant s.g)
      (hclaim : ∀ k', Claimed s'.g k' ↔ Claimed s.g k' ∧ k' ≠ k)
      (hn : s'.g.connecting.Nodup) (hroom : s'.g.connecting.length ≤ maxBackends) :
      ClaimStep s s' (.connectingRemove t)

/-- A thread moves on with the same applicant. -/
theorem Quiet.setThread {s : Sys} {t : Nat} {th : Thread}
    (ha : th.applicant = (s.threads t).applicant)
    (hr : th.registered = false → (s.threads t).registered = false) :
    Quiet s (s.setThread t th) := by
  refine ⟨rfl, rfl, rfl, fun _ _ h => h, fun u => ?_, fun u hu => ?_⟩
  · rw [Sys.setThread_apply]
    split
    · next he => rw [he, ha]
    · rfl
  · rw [Sys.setThread_apply] at hu
    split at hu
    · next he => rw [he]; exact hr hu
    · exact hu

/-- The tables change without the claims; slots may be freed. -/
theorem Quiet.tables {s s₁ s' : Sys} {g : Global} (h : Quiet s s₁) (hg : s'.g = g)
    (ht : s'.threads = s₁.threads) (hp : s'.poll = s₁.poll)
    (hc : g.connecting = s.g.connecting) (hs : g.shellConnecting = s.g.shellConnecting)
    (hslot : ∀ i k, slotApplicant g i = some k → slotApplicant s.g i = some k) :
    Quiet s s' := by
  refine ⟨?_, ?_, ?_, fun i k hk => hslot i k (hg ▸ hk), fun t => ?_, fun t hr => ?_⟩
  · rw [hp]; exact h.pending
  · rw [hg]; exact hc
  · rw [hg]; exact hs
  · rw [ht]; exact h.threads t
  · rw [ht] at hr; exact h.registered t hr

theorem Quiet.refl (s : Sys) : Quiet s s :=
  ⟨rfl, rfl, rfl, fun _ _ h => h, fun _ => rfl, fun _ h => h⟩

/-- Applying a list leaves a slot with its applicant. -/
theorem applyToolsResult_slot {g g' : Global} {idx : Fin maxBackends} {result : Json}
    (h : applyToolsResult g idx result = some g') :
    slotApplicant g' = slotApplicant g ∧ g'.connecting = g.connecting ∧
      g'.shellConnecting = g.shellConnecting := by
  unfold applyToolsResult at h
  split at h
  · cases h
  · next b hb =>
      have hput : ∀ (b' : Backend) (g₁ : Global), g₁.backends = g.backends.put idx b' →
          b'.isShell = b.isShell → b'.pid = b.pid → slotApplicant g₁ = slotApplicant g := by
        intro b' g₁ hg hsh hpid
        funext i
        unfold slotApplicant
        rw [hg, Slots.put_apply]
        split
        · next he => rw [he, hb, Option.map_some, Option.map_some, hsh, hpid]
        · rfl
      dsimp only at h
      split at h
      · cases h; exact ⟨hput _ _ rfl rfl rfl, rfl, rfl⟩
      · cases h; exact ⟨hput _ _ rfl rfl rfl, rfl, rfl⟩

theorem slotApplicant_clear (g : Global) (idx : Fin maxBackends) {i : Fin maxBackends}
    {k : Applicant} (h : slotApplicant { g with backends := g.backends.clear idx } i = some k) :
    slotApplicant g i = some k := by
  obtain ⟨b, hb, he⟩ := Option.map_eq_some_iff.mp h
  exact Option.map_eq_some_iff.mpr ⟨b, Slots.clear_some hb, he⟩

/-- A teardown frees slots and leaves the claims. -/
theorem backendTeardownLocked_slot (g : Global) (idx : Fin maxBackends) :
    (∀ i k, slotApplicant (backendTeardownLocked g idx).1 i = some k →
        slotApplicant g i = some k) ∧
      (backendTeardownLocked g idx).1.connecting = g.connecting ∧
      (backendTeardownLocked g idx).1.shellConnecting = g.shellConnecting := by
  rw [backendTeardownLocked_eq]
  exact ⟨fun i k h => slotApplicant_clear g idx h, rfl, rfl⟩

/-- A registration fills a free slot for the setup thread's applicant. -/
theorem backendRegister_slot {g g' : Global} {sh : Bool} {pid : ℤ} {c : ConnId} {appId : CStr}
    {resp : Json} {exe : CStr} {idx : Fin maxBackends}
    (h : backendRegister g sh pid c appId resp exe = some (idx, g')) :
    slotApplicant g idx = none ∧
      (∀ i, slotApplicant g' i = if i = idx then some (applicant sh pid) else slotApplicant g i) ∧
      g'.connecting = g.connecting ∧ g'.shellConnecting = g.shellConnecting := by
  obtain ⟨b, hfree, -, -, hsh, hpid, -, -, hg⟩ := backendRegister_some h
  have hslot : g'.backends = g.backends.put idx b → ∀ i, slotApplicant g' i =
      if i = idx then some (applicant sh pid) else slotApplicant g i := by
    intro hb i
    unfold slotApplicant
    rw [hb, Slots.put_apply]
    split
    · rw [Option.map_some, hsh, hpid]
    · rfl
  have hnone : slotApplicant g idx = none := by rw [slotApplicant, hfree]; rfl
  rcases hg with ⟨-, -, rfl⟩ | ⟨-, -, rfl⟩
  · exact ⟨hnone, hslot rfl, rfl, rfl⟩
  · exact ⟨hnone, hslot rfl, rfl, rfl⟩

/-- A poll iteration's locked part. -/
theorem pollScan_spec {g : Global} (pids : List ℤ) (self : ℤ) (hn : g.connecting.Nodup)
    (hroom : g.connecting.length ≤ maxBackends) :
    let new := (PollPc.spawn (pollScan g pids self).2.1 (pollScan g pids self).2.2).pending
    slotApplicant (pollScan g pids self).1 = slotApplicant g ∧
      (∀ k, Claimed (pollScan g pids self).1 k ↔ Claimed g k ∨ k ∈ new) ∧
      (∀ k ∈ new, ¬ Claimed g k ∧ ∀ i, slotApplicant g i ≠ some k) ∧ new.Nodup ∧
      (pollScan g pids self).1.connecting.Nodup ∧
      (pollScan g pids self).1.connecting.length ≤ maxBackends := by
  obtain ⟨fresh, he, hnd, hlen, hnew⟩ := pollFold_spec self g hn hroom pids
  have hfresh := List.nodup_append.mp hnd
  have happ : ∀ p ∈ fresh, ¬ Claimed g (some p) ∧ ∀ i, slotApplicant g i ≠ some (some p) := by
    intro p hp
    exact ⟨fun hc => hfresh.2.2 p hc p hp rfl, hnew p hp⟩
  have hmap : (fresh.map some).Nodup := hfresh.2.1.map (Option.some_injective ℤ)
  have hshell : ∀ {b : Bool}, backendKnown { g with connecting := g.connecting ++ fresh } true 0 = b →
      (b = true ↔ (∃ i, slotApplicant g i = some none) ∨ g.shellConnecting = true) := by
    rintro b rfl
    exact backendKnown_iff
  unfold pollScan
  rw [he]
  dsimp only
  split
  · next hknown =>
      refine ⟨rfl, fun k => ?_, fun k hk => ?_, by simpa [PollPc.pending] using hmap, hnd, hlen⟩
      · cases k with
        | none => simp [PollPc.pending, Claimed]
        | some p => simp [PollPc.pending, Claimed]
      · simp only [PollPc.pending, Bool.false_eq_true, if_false, List.append_nil,
          List.mem_map] at hk
        obtain ⟨p, hp, rfl⟩ := hk
        exact happ p hp
  · next hknown =>
      have hno := (not_congr (hshell rfl)).mp hknown
      push Not at hno
      refine ⟨rfl, fun k => ?_, fun k hk => ?_, ?_, hnd, hlen⟩
      · cases k with
        | none => simp [PollPc.pending, Claimed]
        | some p => simp [PollPc.pending, Claimed]
      · simp only [PollPc.pending, if_true, List.mem_append, List.mem_map,
          List.mem_singleton] at hk
        rcases hk with ⟨p, hp, rfl⟩ | rfl
        · exact happ p hp
        · exact ⟨hno.2, hno.1⟩
      · simp only [PollPc.pending, if_true]
        refine List.nodup_append.mpr ⟨hmap, List.nodup_singleton _, fun a ha b hb => ?_⟩
        obtain ⟨p, -, rfl⟩ := List.mem_map.mp ha
        rw [List.mem_singleton.mp hb]
        exact Option.some_ne_none p

/-- A setup thread ends, or a setup could not be started: one claim is given back. -/
theorem connectingRemove_slot (g : Global) (sh : Bool) (pid : ℤ) :
    slotApplicant (connectingRemove g sh pid) = slotApplicant g := by
  obtain ⟨l, b, hg⟩ := connectingRemove_same g sh pid
  rw [hg]
  rfl

/-- The poll iteration's next setup. -/
theorem claim_spawn {s s' : Sys} {sh : Bool} {pid : ℤ} {r : Spawn} (hr : s.FreshThread r)
    (hpend : s.poll.pending = applicant sh pid :: s'.poll.pending)
    (hg : s'.g = (s.spawnSetup sh pid r).g) (ht : s'.threads = (s.spawnSetup sh pid r).threads)
    (hn : s.g.connecting.Nodup) (hroom : s.g.connecting.length ≤ maxBackends) :
    ClaimStep s s' (.pollSpawn r) := by
  cases r with
  | noMemory =>
      exact .spawned _ hpend (by rw [hg]; rfl) (by rw [hg]; exact hn) (by rw [hg]; exact hroom)
        (Or.inl ⟨rfl, ht, fun k => by rw [hg]; exact Iff.rfl⟩)
  | noThread =>
      have hg' : s'.g = connectingRemove s.g sh pid := hg
      obtain ⟨hclaim, hn', hlen⟩ := connectingRemove_spec sh pid hn
      exact .spawned _ hpend (by rw [hg', connectingRemove_slot]) (by rw [hg']; exact hn')
        (by rw [hg']; exact Nat.le_trans hlen hroom)
        (Or.inr (Or.inl ⟨rfl, ht, fun k => by rw [hg']; exact hclaim k⟩))
  | thread t =>
      refine .spawned _ hpend (by rw [hg]; rfl) (by rw [hg]; exact hn) (by rw [hg]; exact hroom)
        (Or.inr (Or.inr ⟨t, rfl, hr, ?_, ?_, fun u hu => ?_, fun k => by rw [hg]; exact Iff.rfl⟩))
      · rw [ht, Sys.spawnSetup, Sys.setThread_same]
        rfl
      · rw [ht, Sys.spawnSetup, Sys.setThread_same]
        rfl
      · rw [ht, Sys.spawnSetup, Sys.setThread_ne _ _ hu]

theorem claim_step {s s' : Sys} {a : Act} (hst : Step s a s') (hn : s.g.connecting.Nodup)
    (hroom : s.g.connecting.length ≤ maxBackends) : ClaimStep s s' a := by
  -- a setup thread that is not done moves on, or a reader does
  have hsetup : ∀ {t : Nat} {sh : Bool} {pid : ℤ} {pc pc' : SetupPc},
      s.threads t = .setup sh pid pc → pc ≠ .remove true →
        Quiet s (s.setThread t (.setup sh pid pc')) := by
    intro t sh pid pc pc' ht hpc
    refine Quiet.setThread (by rw [ht]; rfl) fun _ => ?_
    rw [ht]
    cases pc with
    | remove r =>
        cases r with
        | true => exact absurd rfl hpc
        | false => rfl
    | _ => rfl
  have hmove : ∀ {t : Nat} {th : Thread}, (s.threads t).applicant = none →
      th.applicant = none → Quiet s (s.setThread t th) := by
    intro t th ht hth
    refine Quiet.setThread (by rw [ht, hth]) fun _ => ?_
    cases hu : s.threads t with
    | setup sh pid pc => rw [hu] at ht; cases ht
    | _ => rfl
  have hreader : ∀ {t : Nat} {idx : Fin maxBackends} {pc : ReaderPc},
      s.threads t = .reader idx pc → (s.threads t).applicant = none := by
    intro t idx pc ht
    rw [ht]
    rfl
  cases hst with
  | @agentFrame frame ok hm =>
      have hr := handleAgentFrame_cases s.g s.frames.length frame ok
      generalize hh : handleAgentFrame s.g s.frames.length frame ok = r at hr
      have hg : (s.onAgentFrame frame ok).g = r.g := by simp only [Sys.onAgentFrame, hh]
      have hb : r.g.backends = s.g.backends ∧ r.g.connecting = s.g.connecting ∧
          r.g.shellConnecting = s.g.shellConnecting := by
        cases hr <;> exact ⟨rfl, rfl, rfl⟩
      refine .quiet ((Quiet.refl s).tables hg rfl rfl hb.2.1 hb.2.2 fun i k hk => ?_) (by simp)
      rw [slotApplicant, ← hb.1]
      exact hk
  | agentWrite hm => exact .quiet ((Quiet.refl s).tables rfl rfl rfl rfl rfl fun _ _ h => h) (by simp)
  | markInitialized hm =>
      exact .quiet ((Quiet.refl s).tables rfl rfl rfl rfl rfl fun _ _ h => h) (by simp)
  | @pollScan pids self hp hlen =>
      obtain ⟨hslot, hclaim, hnew, honce, hn', hroom'⟩ := pollScan_spec pids self hn hroom
      exact .scanned hp rfl hslot hclaim hnew honce hn' hroom'
  | @pollSpawn pid fresh shell r hp hr =>
      exact claim_spawn hr (show _ = applicant false pid :: _ by rw [hp]; rfl) rfl rfl hn hroom
  | @pollSpawnShell r hp hr =>
      exact claim_spawn hr (show _ = applicant true 0 :: _ by rw [hp]; rfl) rfl rfl hn hroom
  | pollSleep hp =>
      refine .quiet ⟨by rw [hp]; rfl, rfl, rfl, fun _ _ h => h, fun _ => rfl, fun _ h => h⟩ (by simp)
  | connect ht =>
      exact .quiet ((hsetup ht (by simp)).tables rfl rfl rfl rfl rfl fun _ _ h => h) (by simp)
  | connectFail ht => exact .quiet (hsetup ht (by simp)) (by simp)
  | syncSend ht => exact .quiet (hsetup ht (by simp)) (by simp)
  | syncRecv ht => exact .quiet (hsetup ht (by simp)) (by simp)
  | sendInitialized ht => exact .quiet (hsetup ht (by simp)) (by simp)
  | registerFull ht hr => exact .quiet (hsetup ht (by simp)) (by simp)
  | @registerNoThread t sh pid c appId resp exe idx g' ht hr =>
      obtain ⟨hfree, hslot, hc, hsh⟩ := backendRegister_slot hr
      obtain ⟨hdown, hc', hsh'⟩ := backendTeardownLocked_slot g' idx
      -- the slot just filled is empty again
      have hgone : slotApplicant (backendTeardownLocked g' idx).1 idx = none := by
        rw [backendTeardownLocked_eq]
        simp [slotApplicant]
      have hto : Quiet s (s.setThread t (.setup sh pid (.remove false))) := hsetup ht (by simp)
      generalize backendTeardownLocked g' idx = r at hdown hc' hsh' hgone
      refine .quiet (hto.tables (g := r.1) rfl rfl rfl (hc'.trans hc) (hsh'.trans hsh)
        fun i k hk => ?_) (by simp)
      have hne : i ≠ idx := by
        rintro rfl
        rw [hgone] at hk
        cases hk
      have hold := hdown i k hk
      rw [hslot, if_neg hne] at hold
      exact hold
  | @registered t t' sh pid c appId resp exe idx g' ht hr hfree =>
      obtain ⟨-, hslot, hc, hsh⟩ := backendRegister_slot hr
      have hne : t ≠ t' := by
        rintro rfl
        rw [ht] at hfree
        cases hfree
      have hat : ∀ u, (((s.setG g').setThread t (.setup sh pid (.remove true))).setThread t'
          (.reader idx .top)).threads u = if u = t' then .reader idx .top
            else if u = t then .setup sh pid (.remove true) else s.threads u := by
        intro u
        simp only [Sys.setThread_apply, Sys.setG_threads]
      refine .joined (applicant sh pid) idx (by rw [ht]; rfl) (by rw [ht]; rfl) rfl hc hsh hslot
        (fun u => ?_) (fun u hu => ?_) ?_
      · rw [hat]
        split
        · next he => rw [he, hfree]; rfl
        · split
          · next he => rw [he, ht]; rfl
          · rfl
      · rw [hat, if_neg hu]
        split
        · next he => rw [he, hfree]; rfl
        · rfl
      · rw [hat, if_neg hne, if_pos rfl]
        rfl
  | @connectingRemove t sh pid registered ht =>
      obtain ⟨hclaim, hn', hlen⟩ := connectingRemove_spec sh pid hn
      refine .removed (applicant sh pid) (by rw [ht]; rfl) ?_ (fun u hu => Sys.setThread_ne _ _ hu)
        rfl (connectingRemove_slot s.g sh pid) hclaim hn' (Nat.le_trans hlen hroom)
      rw [Sys.setThread_same]
      cases registered <;> rfl
  | readerTop ht => exact .quiet (hmove (hreader ht) rfl) (by simp)
  | recv ht => exact .quiet (hmove (hreader ht) rfl) (by simp)
  | @refresh t idx ok ht =>
      have hr := refreshBackendTools_cases s.g idx ok
      generalize refreshBackendTools s.g idx ok = r at hr
      have hto : Quiet s (s.setThread t (.reader idx .top)) := hmove (hreader ht) rfl
      refine .quiet (hto.tables rfl rfl rfl ?_ ?_ ?_) (by simp)
      · cases hr <;> rfl
      · cases hr <;> rfl
      · cases hr <;> exact fun _ _ h => h
  | @lookup t idx d msg ht =>
      have hr := readerLookup_cases s.g idx d msg
      generalize readerLookup s.g idx d msg = r at hr
      have hto : Quiet s (s.setThread t (.reader idx r.2)) := hmove (hreader ht) rfl
      refine .quiet (hto.tables rfl rfl rfl ?_ ?_ ?_) (by simp)
      · cases hr <;> rfl
      · cases hr <;> rfl
      · cases hr <;> exact fun _ _ h => h
  | @applied t idx result g' ht ha =>
      obtain ⟨hslot, hc, hsh⟩ := applyToolsResult_slot ha
      have hto : Quiet s (s.setThread t (.reader idx .emitCheck)) := hmove (hreader ht) rfl
      exact .quiet (hto.tables rfl rfl rfl hc hsh fun i k hk => hslot ▸ hk) (by simp)
  | notApplied ht ha => exact .quiet (hmove (hreader ht) rfl) (by simp)
  | relay ht =>
      exact .quiet ((hmove (hreader ht) rfl).tables rfl rfl rfl rfl rfl fun _ _ h => h) (by simp)
  | readerEmitCheck ht => exact .quiet (hmove (hreader ht) rfl) (by simp)
  | readerEmitWrite ht =>
      exact .quiet ((hmove (hreader ht) rfl).tables rfl rfl rfl rfl rfl fun _ _ h => h) (by simp)
  | @teardown t idx ht =>
      obtain ⟨hdown, hc, hsh⟩ := backendTeardownLocked_slot s.g idx
      have hto : Quiet s (s.setThread t .emitCheck) := hmove (hreader ht) rfl
      generalize backendTeardownLocked s.g idx = r at hdown hc hsh
      exact .quiet (hto.tables rfl rfl rfl hc hsh hdown) (by simp)
  | @emitCheck t ht =>
      refine .quiet (hmove (by rw [ht]; rfl) ?_) (by simp)
      split <;> rfl
  | emitWrite ht =>
      exact .quiet ((hmove (by rw [ht]; rfl) rfl).tables rfl rfl rfl rfl rfl fun _ _ h => h) (by simp)

/-! ## Runs -/

theorem membership_step {s s' : Sys} {a : Act} (hst : ClaimStep s s' a) (h : Membership s) :
    Membership s' := by
  cases hst with
  | quiet hq ha =>
      refine ⟨h.slotOnce.drop hq.slots, ?_, ?_, ?_, hq.pending ▸ h.pendOnce, ?_,
        hq.connecting ▸ h.nodup, hq.connecting ▸ h.room⟩
      · exact h.setupOnce.drop fun t k ht => (hq.threads t).symm.trans ht
      · intro t k ht
        obtain ⟨hc, hp⟩ := h.setupHeld t k ((hq.threads t).symm.trans ht)
        exact ⟨(hq.claimed k).mpr hc, hq.pending ▸ hp⟩
      · intro t k ht hreg i hi
        exact h.setupNew t k ((hq.threads t).symm.trans ht) (hq.registered t hreg) i
          (hq.slots i k hi)
      · intro k hk
        obtain ⟨hc, hno⟩ := h.pendHeld k (hq.pending ▸ hk)
        exact ⟨(hq.claimed k).mpr hc, fun i hi => hno i (hq.slots i k hi)⟩
  | scanned hs ht hslot hclaim hnew honce hn hroom =>
      refine ⟨hslot ▸ h.slotOnce, ht ▸ h.setupOnce, ?_, ?_, honce, ?_, hn, hroom⟩
      · intro t k hk
        rw [ht] at hk
        have hc := (h.setupHeld t k hk).1
        exact ⟨(hclaim k).mpr (Or.inl hc), fun hp => (hnew k hp).1 hc⟩
      · intro t k hk hreg
        rw [ht] at hk hreg
        rw [hslot]
        exact h.setupNew t k hk hreg
      · intro k hk
        rw [hslot]
        exact ⟨(hclaim k).mpr (Or.inr hk), (hnew k hk).2⟩
  | spawned k hpend hslot hn hroom hr =>
      have hnd := h.pendOnce
      rw [hpend] at hnd
      obtain ⟨hknot, hrest⟩ := List.nodup_cons.mp hnd
      have hin : ∀ {k'}, k' ∈ s'.poll.pending → k' ∈ s.poll.pending := by
        intro k' hk'
        rw [hpend]
        exact List.mem_cons_of_mem k hk'
      have hkpend : k ∈ s.poll.pending := by
        rw [hpend]
        exact List.mem_cons_self
      rcases hr with ⟨-, ht, hclaim⟩ | ⟨-, ht, hclaim⟩ | ⟨t, -, hgone, happ, hreg, hoth, hclaim⟩
      · refine ⟨hslot ▸ h.slotOnce, ht ▸ h.setupOnce, ?_, ?_, hrest, ?_, hn, hroom⟩
        · intro u k' hu
          rw [ht] at hu
          obtain ⟨hc, hp⟩ := h.setupHeld u k' hu
          exact ⟨(hclaim k').mpr hc, fun hp' => hp (hin hp')⟩
        · rw [hslot, ht]
          exact h.setupNew
        · intro k' hk'
          rw [hslot]
          exact ⟨(hclaim k').mpr (h.pendHeld k' (hin hk')).1, (h.pendHeld k' (hin hk')).2⟩
      · refine ⟨hslot ▸ h.slotOnce, ht ▸ h.setupOnce, ?_, ?_, hrest, ?_, hn, hroom⟩
        · intro u k' hu
          rw [ht] at hu
          obtain ⟨hc, hp⟩ := h.setupHeld u k' hu
          exact ⟨(hclaim k').mpr ⟨hc, fun e => hp (e ▸ hkpend)⟩, fun hp' => hp (hin hp')⟩
        · rw [hslot, ht]
          exact h.setupNew
        · intro k' hk'
          rw [hslot]
          refine ⟨(hclaim k').mpr ⟨(h.pendHeld k' (hin hk')).1, ?_⟩, (h.pendHeld k' (hin hk')).2⟩
          exact fun e => hknot (e ▸ hk')
      · have hsplit : ∀ u k', (s'.threads u).applicant = some k' →
            (u = t ∧ k' = k) ∨ (u ≠ t ∧ (s.threads u).applicant = some k') := by
          intro u k' hu
          by_cases hut : u = t
          · subst hut
            rw [happ] at hu
            exact Or.inl ⟨rfl, (Option.some.inj hu).symm⟩
          · rw [hoth u hut] at hu
            exact Or.inr ⟨hut, hu⟩
        refine ⟨hslot ▸ h.slotOnce, ?_, ?_, ?_, hrest, ?_, hn, hroom⟩
        · refine h.setupOnce.put t k (fun u hu => (h.setupHeld u k hu).2 hkpend) fun u k' hu => ?_
          rcases hsplit u k' hu with hnew | ⟨-, hold⟩
          · exact Or.inl hnew
          · exact Or.inr hold
        · intro u k' hu
          rcases hsplit u k' hu with ⟨-, rfl⟩ | ⟨-, hold⟩
          · exact ⟨(hclaim k').mpr (h.pendHeld k' hkpend).1, hknot⟩
          · obtain ⟨hc, hp⟩ := h.setupHeld u k' hold
            exact ⟨(hclaim k').mpr hc, fun hp' => hp (hin hp')⟩
        · intro u k' hu hreg'
          rw [hslot]
          rcases hsplit u k' hu with ⟨-, rfl⟩ | ⟨hut, hold⟩
          · exact (h.pendHeld k' hkpend).2
          · rw [hoth u hut] at hreg'
            exact h.setupNew u k' hold hreg'
        · intro k' hk'
          rw [hslot]
          exact ⟨(hclaim k').mpr (h.pendHeld k' (hin hk')).1, (h.pendHeld k' (hin hk')).2⟩
  | @joined t exe r k idx ht hreg hpend hconn hshell hslot happ hoth hreg' =>
      have hclaim : ∀ k', Claimed s'.g k' ↔ Claimed s.g k' := by
        intro k'
        cases k' with
        | none => exact (congrArg (· = true) hshell).to_iff
        | some pid => exact (congrArg (pid ∈ ·) hconn).to_iff
      have hother : ∀ i k', k' ≠ k → slotApplicant s'.g i = some k' →
          slotApplicant s.g i = some k' := by
        intro i k' hne hi
        rw [hslot] at hi
        split at hi
        · exact absurd (Option.some.inj hi).symm hne
        · exact hi
      refine ⟨?_, ?_, ?_, ?_, hpend ▸ h.pendOnce, ?_, hconn ▸ h.nodup, hconn ▸ h.room⟩
      · refine h.slotOnce.put idx k (h.setupNew t k ht hreg) fun i k' hi => ?_
        rw [hslot] at hi
        split at hi
        · next he => exact Or.inl ⟨he, (Option.some.inj hi).symm⟩
        · exact Or.inr hi
      · exact h.setupOnce.drop fun u k' hu => (happ u).symm.trans hu
      · intro u k' hu
        obtain ⟨hc, hp⟩ := h.setupHeld u k' ((happ u).symm.trans hu)
        exact ⟨(hclaim k').mpr hc, hpend ▸ hp⟩
      · intro u k' hu hureg i hi
        have hut : u ≠ t := by
          rintro rfl
          rw [hreg'] at hureg
          cases hureg
        have hold : (s.threads u).applicant = some k' := (happ u).symm.trans hu
        have hne : k' ≠ k := by
          rintro rfl
          exact hut (h.setupOnce u t k' hold ht)
        rw [hoth u hut] at hureg
        exact h.setupNew u k' hold hureg i (hother i k' hne hi)
      · intro k' hk'
        rw [hpend] at hk'
        have hne : k' ≠ k := by
          rintro rfl
          exact (h.setupHeld t k' ht).2 hk'
        obtain ⟨hc, hno⟩ := h.pendHeld k' hk'
        exact ⟨(hclaim k').mpr hc, fun i hi => hno i (hother i k' hne hi)⟩
  | @removed t k ht ht' hoth hpend hslot hclaim hn hroom =>
      have hold : ∀ u k', (s'.threads u).applicant = some k' →
          u ≠ t ∧ s'.threads u = s.threads u ∧ k' ≠ k := by
        intro u k' hu
        have hut : u ≠ t := by
          rintro rfl
          rw [ht'] at hu
          cases hu
        refine ⟨hut, hoth u hut, ?_⟩
        rintro rfl
        rw [hoth u hut] at hu
        exact hut (h.setupOnce u t k' hu ht)
      refine ⟨hslot ▸ h.slotOnce, ?_, ?_, ?_, hpend ▸ h.pendOnce, ?_, hn, hroom⟩
      · refine h.setupOnce.drop fun u k' hu => ?_
        rw [← (hold u k' hu).2.1]
        exact hu
      · intro u k' hu
        obtain ⟨-, he, hne⟩ := hold u k' hu
        rw [he] at hu
        obtain ⟨hc, hp⟩ := h.setupHeld u k' hu
        exact ⟨(hclaim k').mpr ⟨hc, hne⟩, hpend ▸ hp⟩
      · intro u k' hu hreg
        obtain ⟨-, he, -⟩ := hold u k' hu
        rw [he] at hu hreg
        rw [hslot]
        exact h.setupNew u k' hu hreg
      · intro k' hk'
        rw [hpend] at hk'
        rw [hslot]
        obtain ⟨hc, hno⟩ := h.pendHeld k' hk'
        exact ⟨(hclaim k').mpr ⟨hc, fun e => (h.setupHeld t k ht).2 (e ▸ hk')⟩, hno⟩

theorem membership_reach {s : Sys} (h : Reach aggregator s) : Membership s := by
  refine h.invariant ?_ fun s a s' _ hi hst => ?_
  · rintro s ⟨platform, expose, rfl⟩
    exact membership_start platform expose
  · exact membership_step (claim_step (show Step s a s' from hst) hi.nodup hi.room) hi

/-- The allocation of `spawn_setup`, if the step makes one, succeeds. -/
def SetupAllocated (_ : Sys) : Act → Prop
  | .pollSpawn .noMemory => False
  | _ => True

instance (s : Sys) (a : Act) : Decidable (SetupAllocated s a) := by
  unfold SetupAllocated
  split <;> infer_instance

theorem setupAllocated_iff {s : Sys} {a : Act} : SetupAllocated s a ↔ a ≠ .pollSpawn .noMemory := by
  unfold SetupAllocated
  split
  · simp
  · next h => exact ⟨fun _ => h, fun _ => trivial⟩

/-- With memory for every setup, claims stay held. -/
theorem covered_step {s s' : Sys} {a : Act} (hst : ClaimStep s s' a)
    (hok : SetupAllocated s a) (h : Covered s) : Covered s' := by
  intro k' hk'
  cases hst with
  | quiet hq ha =>
      rcases h k' ((hq.claimed k').mp hk') with hp | ⟨t, ht⟩
      · exact Or.inl (hq.pending ▸ hp)
      · exact Or.inr ⟨t, (hq.threads t).trans ht⟩
  | scanned hs ht hslot hclaim hnew honce hn hroom =>
      rcases (hclaim k').mp hk' with hold | hp
      · rcases h k' hold with hp | ⟨t, hu⟩
        · rw [hs] at hp
          cases hp
        · exact Or.inr ⟨t, by rw [ht]; exact hu⟩
      · exact Or.inl hp
  | spawned k hpend hslot hn hroom hr =>
      have hrest : k' ≠ k → k' ∈ s.poll.pending → k' ∈ s'.poll.pending := by
        intro hne hp
        rw [hpend] at hp
        exact (List.mem_cons.mp hp).resolve_left hne
      rcases hr with ⟨rfl, -, -⟩ | ⟨-, ht, hclaim⟩ | ⟨t, -, hgone, happ, -, hoth, hclaim⟩
      · exact absurd hok id
      · obtain ⟨hold, hne⟩ := (hclaim k').mp hk'
        rcases h k' hold with hp | ⟨u, hu⟩
        · exact Or.inl (hrest hne hp)
        · exact Or.inr ⟨u, by rw [ht]; exact hu⟩
      · by_cases hne : k' = k
        · exact Or.inr ⟨t, hne ▸ happ⟩
        · rcases h k' ((hclaim k').mp hk') with hp | ⟨u, hu⟩
          · exact Or.inl (hrest hne hp)
          · have hut : u ≠ t := by
              rintro rfl
              rw [hgone] at hu
              cases hu
            exact Or.inr ⟨u, by rw [hoth u hut]; exact hu⟩
  | joined k idx ht hreg hpend hconn hshell hslot happ hoth hreg' =>
      have hold : Claimed s.g k' := by
        cases k' with
        | none => exact hshell.symm.trans hk'
        | some pid =>
            change pid ∈ s.g.connecting
            rw [← hconn]
            exact hk'
      rcases h k' hold with hp | ⟨u, hu⟩
      · exact Or.inl (hpend ▸ hp)
      · exact Or.inr ⟨u, (happ u).trans hu⟩
  | @removed t k ht ht' hoth hpend hslot hclaim hn hroom =>
      obtain ⟨hold, hne⟩ := (hclaim k').mp hk'
      rcases h k' hold with hp | ⟨u, hu⟩
      · exact Or.inl (hpend ▸ hp)
      · have hut : u ≠ t := by
          rintro rfl
          rw [ht] at hu
          exact hne (Option.some.inj hu).symm
        exact Or.inr ⟨u, by rw [hoth u hut]; exact hu⟩

/-- A claim without a holder stays: the applicant is known, so no setup is started for it. -/
theorem stuck_step {s s' : Sys} {a : Act} {k : Applicant} (hst : ClaimStep s s' a)
    (hc : Claimed s.g k) (hno : ¬ Held s k) :
    Claimed s'.g k ∧ ¬ Held s' k := by
  have hpend₀ : k ∉ s.poll.pending := fun hp => hno (Or.inl hp)
  have hthread₀ : ∀ t, (s.threads t).applicant ≠ some k := fun t ht => hno (Or.inr ⟨t, ht⟩)
  have hfinish : Claimed s'.g k → k ∉ s'.poll.pending →
      (∀ t, (s'.threads t).applicant ≠ some k) → Claimed s'.g k ∧ ¬ Held s' k := by
    rintro h1 h2 h3
    refine ⟨h1, ?_⟩
    rintro (hp | ⟨t, ht⟩)
    · exact h2 hp
    · exact h3 t ht
  cases hst with
  | quiet hq ha =>
      exact hfinish ((hq.claimed k).mpr hc) (hq.pending ▸ hpend₀) fun t ht =>
        hthread₀ t ((hq.threads t).symm.trans ht)
  | scanned hs ht hslot hclaim hnew honce hn hroom =>
      exact hfinish ((hclaim k).mpr (Or.inl hc)) (fun hp => (hnew k hp).1 hc) (ht ▸ hthread₀)
  | spawned k₀ hpend hslot hn hroom hr =>
      have hne : k ≠ k₀ := by
        rintro rfl
        exact hpend₀ (by rw [hpend]; exact List.mem_cons_self)
      have hp' : k ∉ s'.poll.pending := by
        intro hp
        exact hpend₀ (by rw [hpend]; exact List.mem_cons_of_mem _ hp)
      rcases hr with ⟨-, ht, hclaim⟩ | ⟨-, ht, hclaim⟩ | ⟨t, -, hgone, happ, -, hoth, hclaim⟩
      · exact hfinish ((hclaim k).mpr hc) hp' (ht ▸ hthread₀)
      · exact hfinish ((hclaim k).mpr ⟨hc, hne⟩) hp' (ht ▸ hthread₀)
      · refine hfinish ((hclaim k).mpr hc) hp' fun u hu => ?_
        by_cases hut : u = t
        · subst hut
          rw [happ] at hu
          exact hne (Option.some.inj hu).symm
        · rw [hoth u hut] at hu
          exact hthread₀ u hu
  | joined k₀ idx ht hreg hpend hconn hshell hslot happ hoth hreg' =>
      refine hfinish ?_ (hpend ▸ hpend₀) fun u hu => hthread₀ u ((happ u).symm.trans hu)
      cases k with
      | none => exact hshell.trans hc
      | some pid =>
          change pid ∈ s'.g.connecting
          rw [hconn]
          exact hc
  | @removed t k₀ ht ht' hoth hpend hslot hclaim hn hroom =>
      have hne : k ≠ k₀ := by
        rintro rfl
        exact hthread₀ t ht
      refine hfinish ((hclaim k).mpr ⟨hc, hne⟩) (hpend ▸ hpend₀) fun u hu => ?_
      by_cases hut : u = t
      · subst hut
        rw [ht'] at hu
        cases hu
      · rw [hoth u hut] at hu
        exact hthread₀ u hu

/-- Out of memory, `spawn_setup` leaves the claim without a holder. -/
theorem forgotten_step {s s' : Sys} (hst : ClaimStep s s' (.pollSpawn .noMemory))
    (h : Membership s) : ∃ k, Claimed s'.g k ∧ ¬ Held s' k := by
  cases hst with
  | quiet hq ha => exact absurd rfl ha
  | spawned k hpend hslot hn hroom hr =>
      have hmem : k ∈ s.poll.pending := by
        rw [hpend]
        exact List.mem_cons_self
      rcases hr with ⟨-, ht, hclaim⟩ | ⟨he, -, -⟩ | ⟨t, he, -⟩
      · refine ⟨k, (hclaim k).mpr (h.pendHeld k hmem).1, ?_⟩
        rintro (hp | ⟨t, hu⟩)
        · have hnd := h.pendOnce
          rw [hpend] at hnd
          exact (List.nodup_cons.mp hnd).1 hp
        · rw [ht] at hu
          exact (h.setupHeld t k hu).2 hmem
      · cases he
      · cases he

/-- Claims are all held exactly when no `spawn_setup` has run out of memory. -/
theorem covered_iff {s t : Sys} {tr : List (Sys × Act)} (hi : aggregator.init s)
    (hr : Run aggregator s tr t) : Covered t ↔ Meets SetupAllocated tr := by
  have hmem : ∀ {u : Sys} {tr' : List (Sys × Act)}, Run aggregator s tr' u → Membership u :=
    fun hrun => membership_reach ((ReachWhen.init hi).run hrun fun _ _ => trivial)
  have hclaim : ∀ {u u' : Sys} {a : Act} {tr' : List (Sys × Act)}, Run aggregator s tr' u →
      aggregator.step u a u' → ClaimStep u u' a := by
    intro u u' a tr' hrun hst
    exact claim_step (show Step u a u' from hst) (hmem hrun).nodup (hmem hrun).room
  induction hr with
  | refl =>
      obtain ⟨platform, expose, rfl⟩ := hi
      exact ⟨fun _ => meets_nil _, fun _ => covered_start platform expose⟩
  | @tail tr t a u hrun hst ih =>
      rw [meets_snoc]
      constructor
      · intro hcov
        refine ⟨ih.mp fun k hk => ?_, setupAllocated_iff.mpr ?_⟩
        · by_contra hno
          obtain ⟨hk', hno'⟩ := stuck_step (hclaim hrun hst) hk hno
          exact hno' (hcov k hk')
        · rintro rfl
          obtain ⟨k, hk, hno⟩ := forgotten_step (hclaim hrun hst) (hmem hrun)
          exact hno (hcov k hk)
      · rintro ⟨hm, hok⟩
        exact covered_step (hclaim hrun hst) hok (ih.mpr hm)

/-- Membership bookkeeping. In every state of a run each pid, and the shell, has at most one
    backend slot, and `connecting` is a set within its bound; and every claim is held, by the
    poll iteration that is about to start its setup or by a live setup thread, exactly when no
    `spawn_setup` of the run was out of memory. -/
theorem membership_bookkeeping {s t : Sys} {tr : List (Sys × Act)} (hi : aggregator.init s)
    (hr : Run aggregator s tr t) :
    (∀ i j b b', t.g.backends i = some b → t.g.backends j = some b' → b.isShell = b'.isShell →
        b.isShell = true ∨ b.pid = b'.pid → i = j) ∧
      t.g.connecting.Nodup ∧ t.g.connecting.length ≤ maxBackends ∧
      (((∀ pid ∈ t.g.connecting, some pid ∈ t.poll.pending ∨
            ∃ u pc, t.threads u = .setup false pid pc) ∧
          (t.g.shellConnecting = true → none ∈ t.poll.pending ∨
            ∃ u pid pc, t.threads u = .setup true pid pc)) ↔
        Meets SetupAllocated tr) := by
  have hm : Membership t := membership_reach ((ReachWhen.init hi).run hr fun _ _ => trivial)
  refine ⟨fun i j b b' hb hb' hsh hp => ?_, hm.nodup, hm.room, ?_⟩
  · have hsame : applicant b'.isShell b'.pid = applicant b.isShell b.pid := by
      unfold applicant
      rw [← hsh]
      rcases hp with hp | hp
      · rw [hp]; rfl
      · rw [hp]
    refine hm.slotOnce i j (applicant b.isShell b.pid) ?_ ?_
    · rw [slotApplicant, hb, Option.map_some]
    · rw [slotApplicant, hb', Option.map_some, hsame]
  · rw [← covered_iff hi hr]
    have hthread : ∀ u k, (t.threads u).applicant = some k ↔
        ∃ sh pid pc, t.threads u = .setup sh pid pc ∧ applicant sh pid = k := by
      intro u k
      cases hu : t.threads u with
      | setup sh pid pc => simp [Thread.applicant]
      | _ => simp [Thread.applicant]
    constructor
    · rintro ⟨happ, hshell⟩ k hk
      cases k with
      | none =>
          rcases hshell hk with hp | ⟨u, pid, pc, hu⟩
          · exact Or.inl hp
          · exact Or.inr ⟨u, (hthread u none).mpr ⟨true, pid, pc, hu, rfl⟩⟩
      | some pid =>
          rcases happ pid hk with hp | ⟨u, pc, hu⟩
          · exact Or.inl hp
          · exact Or.inr ⟨u, (hthread u (some pid)).mpr ⟨false, pid, pc, hu, rfl⟩⟩
    · intro hcov
      refine ⟨fun pid hpid => ?_, fun hsh => ?_⟩
      · rcases hcov (some pid) hpid with hp | ⟨u, hu⟩
        · exact Or.inl hp
        · obtain ⟨sh, p, pc, ht, he⟩ := (hthread u (some pid)).mp hu
          cases sh with
          | true => cases he
          | false =>
              cases he
              exact Or.inr ⟨u, pc, ht⟩
      · rcases hcov none hsh with hp | ⟨u, hu⟩
        · exact Or.inl hp
        · obtain ⟨sh, p, pc, ht, he⟩ := (hthread u none).mp hu
          cases sh with
          | true => exact Or.inr ⟨u, p, pc, ht⟩
          | false => cases he

/-- One poll iteration that finds an app: its setup has the given outcome, the shell's does not
    start. -/
def onePoll (r : Spawn) : List Act :=
  [.pollScan [5] 0, .pollSpawn r, .pollSpawn .noThread, .pollSleep]

/-- With memory for the setup the claim is held by its thread. -/
theorem membership_bookkeeping_oneApp : ∃ t,
    follow Sys.next (Sys.start plainPlatform false) (onePoll (.thread 0)) = some t ∧
      t.g.connecting = [5] ∧ ∃ u pc, t.threads u = .setup false 5 pc := by
  have hrun : ((follow Sys.next (Sys.start plainPlatform false) (onePoll (.thread 0))).map fun t =>
      decide (t.g.connecting = [5] ∧ t.poll.pending = [] ∧ Meets SetupAllocated
        (record Sys.next (Sys.start plainPlatform false) (onePoll (.thread 0))))) = some true := by
    decide +kernel
  obtain ⟨t, ht, hrun⟩ := Option.map_eq_some_iff.mp hrun
  obtain ⟨hconn, hpend, hmeets⟩ := of_decide_eq_true hrun
  have hall := membership_bookkeeping ⟨plainPlatform, false, rfl⟩
    (run_of_follow (fun _ _ _ => next_step) _ ht)
  refine ⟨t, ht, hconn, ?_⟩
  rcases (hall.2.2.2.mpr hmeets).1 5 (by rw [hconn]; exact List.mem_singleton.mpr rfl) with hp | hu
  · rw [hpend] at hp
    cases hp
  · exact hu

/-- Out of memory, the pid stays in `connecting` with no thread to take it out. -/
theorem membership_bookkeeping_noMemory : ∃ t, Reach aggregator t ∧ t.poll.pending = [] ∧
    5 ∈ t.g.connecting ∧ ∀ u pc, t.threads u ≠ .setup false 5 pc := by
  have hrun : ((follow Sys.next (Sys.start plainPlatform false) (onePoll .noMemory)).map fun t =>
      decide (t.g.connecting = [5] ∧ t.g.shellConnecting = false ∧ t.poll.pending = [] ∧
        ¬ Meets SetupAllocated (record Sys.next (Sys.start plainPlatform false)
          (onePoll .noMemory)))) = some true := by
    decide +kernel
  obtain ⟨t, ht, hrun⟩ := Option.map_eq_some_iff.mp hrun
  obtain ⟨hconn, hshell, hpend, hmeets⟩ := of_decide_eq_true hrun
  have hr := run_of_follow (M := aggregator) (fun _ _ _ => next_step) _ ht
  refine ⟨t, ⟨_, _, ⟨plainPlatform, false, rfl⟩, hr, fun _ _ => trivial⟩, hpend, ?_, ?_⟩
  · rw [hconn]
    exact List.mem_singleton.mpr rfl
  · intro u pc hu
    refine hmeets ((covered_iff ⟨plainPlatform, false, rfl⟩ hr).mp fun k hk => ?_)
    cases k with
    | none =>
        have hsh : t.g.shellConnecting = true := hk
        rw [hshell] at hsh
        cases hsh
    | some pid =>
        have hpid : pid ∈ t.g.connecting := hk
        rw [hconn, List.mem_singleton] at hpid
        subst hpid
        exact Or.inr ⟨u, by rw [hu]; rfl⟩

end DisplayxrMcp
