/-
  What a handshake takes down, and whether it is still so at the registration.

  `told` is what the server tells the handshake: its app id when it answers
  `initialize`, a snapshot of its tools, and its app id once more. `Informed`
  says that the setup thread has been told just that. What is noted is compared
  with the server by the link of `Lib.Refresh` once more, with only the
  announcements on it that the handshake will leave to the reader: the ones
  behind the reply to `tools/list` (`setupLink`).
-/
import DisplayxrMcp.Pair.Refresh

namespace DisplayxrMcp.Pair

open Lib Cjson Lts Server

/-- The frames behind the first such reply. -/
def behind (outbox : List Frame) : List Frame := (outbox.dropWhile fun f => !f.isList).tail

theorem behind_cons {f : Frame} {rest : List Frame} (h : f.isList = false) :
    behind (f :: rest) = behind rest := by
  simp [behind, h]

theorem behind_list {f : Frame} {rest : List Frame} (h : f.isList = true) :
    behind (f :: rest) = rest := by
  simp [behind, h]

theorem behind_none {outbox : List Frame} (h : ∀ f ∈ outbox, f.isList = false) :
    behind outbox = [] := by
  induction outbox with
  | nil => rfl
  | cons f rest ih =>
      rw [behind_cons (h f List.mem_cons_self)]
      exact ih fun g hg => h g (List.mem_cons_of_mem _ hg)

theorem behind_append {outbox more : List Frame} (h : ∃ f ∈ outbox, f.isList = true) :
    behind (outbox ++ more) = behind outbox ++ more := by
  induction outbox with
  | nil =>
      obtain ⟨f, hf, -⟩ := h
      cases hf
  | cons f rest ih =>
      rw [List.cons_append]
      cases hl : f.isList with
      | true => rw [behind_list hl, behind_list hl]
      | false =>
          rw [behind_cons hl, behind_cons hl]
          obtain ⟨g, hg, hlist⟩ := h
          rcases List.mem_cons.mp hg with rfl | hg
          · rw [hl] at hlist
            cases hlist
          · exact ih ⟨g, hg, hlist⟩

/-- The frames the reader will get to read. -/
def survivors (pc : SetupPc) (outbox : List Frame) : List Frame :=
  match pc with
  | .register _ _ _ => outbox
  | _ => behind outbox

/-- What a reply of this kind says of what has been told. -/
def Told.Says (told : Told) (kind : AskKind) (body : Json) : Prop :=
  match kind with
  | .hello => ∃ id version, body = jsonrpcResult id (Server.initializeResult version told.helloId)
  | .list => ∃ id tools appId, body = jsonrpcResult id (toolsListResult tools appId) ∧
      told.tools = some (tools.map Json.reparse) ∧ told.listId = some appId
  | .other => True

/-- The app id the handshake will record: the one in the `initialize` reply, else the one in the
    `tools/list` reply. -/
def Told.appId (told : Told) : Option CStr :=
  if told.helloId ≠ [] then some told.helloId else told.listId

/-- What the setup thread carries along. -/
def Carries (told : Told) : SetupPc → Prop
  | .send _ .hello => told.helloId = []
  | .send _ (.list appId) | .recv _ (.list appId) _ | .initialized _ appId => appId = told.helloId
  | .register _ appId resp =>
      told.tools = some (toolsOf (resp.getObjectItemCaseSensitive (ascii "result"))) ∧
        told.appId = some appId
  | _ => True

/-- The app ids told fit the buffer. -/
def Told.Short (told : Told) : Prop :=
  snprintf 33 told.helloId = told.helloId ∧ ∀ a, told.listId = some a → snprintf 33 a = a

/-- The setup thread at `pc` has been told what the server has said. -/
structure Informed (p : Peer) (pc : SetupPc) : Prop where
  carries : Carries p.told pc
  short : p.told.Short
  listed : p.told.listed = true →
    (∃ f ∈ p.outbox, f.isList = true) ∨ ∃ c appId resp, pc = .register c appId resp
  unheard : (∃ a ∈ p.inbox.filterMap askOf, a.kind = .hello) ∨ (∃ id, p.pc = .hello id) →
    p.told.helloId = []
  marking : ∀ id appId, p.pc = .markInitialized id appId → appId = p.told.helloId
  listing : ∀ id tools, p.pc = .listAppId id tools → p.told.tools = some (tools.map Json.reparse)
  replying : ∀ kind body a, p.pc = .reply kind body → p.serving = some a → p.told.Says a.kind body
  frames : ∀ f ∈ p.outbox, ∀ a, f.answers = some a →
    ∃ body, p.told.Says a.kind body ∧ f.body = body.reparse

/-- The registry's app id fits the buffer. -/
theorem snprintf_registry (r : Registry) : snprintf 33 r.appId = r.appId := by
  rcases r.slug with h | h
  · rw [h]
    rfl
  · exact snprintf_appId h

/-- While a request of the handshake is served, nothing else is on its way. -/
theorem serving_alone {p : Peer} {pc : SetupPc} {a : Ask} (h : p.asks = asked pc)
    (hs : p.serving = some a) : asked pc = [a] ∧ (∀ f ∈ p.outbox, f.answers = none) ∧
      p.inbox.filterMap askOf = [] := by
  have hone : (asked pc).length ≤ 1 := by
    unfold asked
    split <;> simp
  rw [← h] at hone ⊢
  rw [Peer.asks, hs] at hone ⊢
  simp only [List.length_append, Option.toList_some, List.length_singleton] at hone
  have hout : p.outbox.filterMap Frame.answers = [] := List.length_eq_zero_iff.mp (by omega)
  have hin : p.inbox.filterMap askOf = [] := List.length_eq_zero_iff.mp (by omega)
  refine ⟨by rw [hout, hin]; rfl, ?_, hin⟩
  exact List.filterMap_eq_nil_iff.mp hout

/-- The handshake makes no calls. -/
theorem serving_handshake {p : Peer} {pc : SetupPc} {a : Ask} (h : p.asks = asked pc)
    (hs : p.serving = some a) : a.kind ≠ .other := by
  obtain ⟨hone, -⟩ := serving_alone h hs
  unfold asked at hone
  split at hone
  · cases hone; simp
  · cases hone; simp
  · cases hone

/-! ## The server's steps -/

theorem Told.says_listed {told : Told} {kind : AskKind} {body : Json} (h : told.Says kind body) :
    ({ told with listed := true } : Told).Says kind body := by
  cases kind <;> exact h

/-- While `initialize` is served nothing has been carried off yet. -/
theorem carries_hello {told : Told} {pc : SetupPc} {a : Ask} (h : asked pc = [a])
    (ha : a.kind = .hello) : Carries told pc := by
  unfold asked at h
  split at h
  · trivial
  · cases h
    cases ha
  · cases h

/-- While `tools/list` is served only the app id of `initialize` has been carried off. -/
theorem carries_list {told told' : Told} {pc : SetupPc} {a : Ask} (hc : Carries told pc)
    (h : asked pc = [a]) (ha : a.kind = .list) (hid : told'.helloId = told.helloId) :
    Carries told' pc := by
  unfold asked at h
  split at h
  · cases h
    cases ha
  · exact hc.trans hid.symm
  · cases h

theorem carries_listed {told : Told} {pc : SetupPc} (h : Carries told pc) :
    Carries { told with listed := true } pc := by
  cases pc with
  | send c ph => cases ph <;> exact h
  | recv c ph k => cases ph <;> exact h
  | _ => exact h

/-- While a request of the handshake is served its `tools/list` reply is not written. -/
theorem Informed.unlisted {p : Peer} {pc : SetupPc} {a : Ask} (h : Informed p pc)
    (hasks : p.asks = asked pc) (hs : p.serving = some a) : p.told.listed = false := by
  obtain ⟨hone, hout, -⟩ := serving_alone hasks hs
  by_contra hl
  rw [Bool.not_eq_false] at hl
  rcases h.listed hl with ⟨f, hf, hlist⟩ | ⟨c, appId, resp, rfl⟩
  · simp [Frame.isList, hout f hf] at hlist
  · cases hone

/-- A locked section of `handle_request`. -/
theorem Informed.dispatch {p : Peer} {pc : SetupPc} {pc' : ServePc} {mark : Bool}
    (h : Informed p pc) (hok : p.Ok) (hasks : p.asks = asked pc)
    (hd : dispatchStep p.registry p.pc = some (pc', mark)) :
    Informed { p with
      pc := pc', initialized := p.initialized || mark, told := p.told.hear p.registry p.pc } pc := by
  have hserves := hok.serves
  cases hp : p.pc with
  | hello id =>
      rw [hp] at hd hserves
      cases hd
      obtain ⟨hone, hout, hin⟩ := serving_alone hasks hserves
      refine ⟨carries_hello hone rfl, ⟨snprintf_registry _, h.short.2⟩, h.listed,
        ?_, ?_, ?_, ?_, ?_⟩
      · rintro (⟨a, ha, -⟩ | ⟨id', he⟩)
        · change a ∈ p.inbox.filterMap askOf at ha
          rw [hin] at ha
          cases ha
        · cases he
      · intro id' appId he
        cases he
        rfl
      · intro id' tools he
        cases he
      · intro kind body a he
        cases he
      · intro f hf a ha
        rw [hout f hf] at ha
        cases ha
  | markInitialized id appId =>
      rw [hp] at hd hserves
      cases hd
      obtain ⟨hone, hout, -⟩ := serving_alone hasks hserves
      have happ := h.marking id appId hp
      refine ⟨h.carries, h.short, h.listed, ?_, ?_, ?_, ?_, h.frames⟩
      · rintro (ha | ⟨id', he⟩)
        · exact h.unheard (Or.inl ha)
        · cases he
      · intro id' appId' he
        cases he
      · intro id' tools he
        cases he
      · intro kind body a he hs
        cases he
        rw [show a = ⟨.hello, id.reparse⟩ from Option.some.inj (hs.symm.trans hserves)]
        exact ⟨id, p.registry.version, by rw [happ]; rfl⟩
  | listTools id =>
      have hunlisted := h.unlisted hasks (hp ▸ hserves)
      rw [hp] at hd hserves
      cases hd
      obtain ⟨hone, hout, -⟩ := serving_alone hasks hserves
      have htold : p.told.hear p.registry (.listTools id) =
          { p.told with tools := some (surface p.registry) } := by
        simp only [Told.hear, hunlisted, Bool.false_eq_true, if_false]
      rw [htold]
      refine ⟨carries_list h.carries hone rfl rfl, h.short, h.listed, ?_, ?_, ?_, ?_, ?_⟩
      · rintro (ha | ⟨id', he⟩)
        · exact h.unheard (Or.inl ha)
        · cases he
      · intro id' appId he
        cases he
      · intro id' tools he
        cases he
        rfl
      · intro kind body a he
        cases he
      · intro f hf a ha
        rw [hout f hf] at ha
        cases ha
  | listAppId id tools =>
      have hunlisted := h.unlisted hasks (hp ▸ hserves)
      have htools := h.listing id tools hp
      rw [hp] at hd hserves
      cases hd
      obtain ⟨hone, hout, -⟩ := serving_alone hasks hserves
      have htold : p.told.hear p.registry (.listAppId id tools) =
          { p.told with listId := some p.registry.appId } := by
        simp only [Told.hear, hunlisted, Bool.false_eq_true, if_false]
      rw [htold]
      refine ⟨carries_list h.carries hone rfl rfl, ⟨h.short.1, fun a ha => ?_⟩, h.listed,
        ?_, ?_, ?_, ?_, ?_⟩
      · cases ha
        exact snprintf_registry _
      · rintro (ha | ⟨id', he⟩)
        · exact h.unheard (Or.inl ha)
        · cases he
      · intro id' appId he
        cases he
      · intro id' tools' he
        cases he
      · intro kind body a he hs
        cases he
        rw [show a = ⟨.list, id.reparse⟩ from Option.some.inj (hs.symm.trans hserves)]
        exact ⟨id, tools, p.registry.appId, rfl, htools, rfl⟩
      · intro f hf a ha
        rw [hout f hf] at ha
        cases ha
  | findTool id name args =>
      rw [hp] at hserves
      exact absurd rfl (serving_handshake hasks hserves)
  | _ =>
      rw [hp] at hd
      cases hd

/-- The server writes a reply. -/
theorem Informed.answer {p : Peer} {pc : SetupPc} {kind : FrameKind} {body : Json}
    (h : Informed p pc) (hok : p.Ok) (hp : p.pc = .reply kind body) :
    Informed { p with
      pc := .read
      serving := none
      outbox := p.outbox ++ [⟨p.serving, body.reparse⟩]
      told := if p.serving.map Ask.kind = some .list then { p.told with listed := true }
        else p.told } pc := by
  have hserves := hok.serves
  rw [hp] at hserves
  obtain ⟨a, ha, -⟩ := hserves
  have hfields : ∀ told : Told, (told = p.told ∨ told = { p.told with listed := true }) →
      Carries told pc ∧ told.Short ∧ told.helloId = p.told.helloId ∧
        ∀ k b, p.told.Says k b → told.Says k b := by
    rintro told (rfl | rfl)
    · exact ⟨h.carries, h.short, rfl, fun _ _ hs => hs⟩
    · exact ⟨carries_listed h.carries, h.short, rfl, fun _ _ hs => Told.says_listed hs⟩
  obtain ⟨hcarries, hshort, hhello, hsays⟩ := hfields
    (if p.serving.map Ask.kind = some .list then { p.told with listed := true } else p.told) (by
      split
      · exact Or.inr rfl
      · exact Or.inl rfl)
  refine ⟨hcarries, hshort, fun hl => ?_, ?_, ?_, ?_, ?_, ?_⟩
  · by_cases hk : p.serving.map Ask.kind = some .list
    · exact Or.inl ⟨_, List.mem_append_right _ List.mem_cons_self, decide_eq_true hk⟩
    · change (if p.serving.map Ask.kind = some .list then ({ p.told with listed := true } : Told)
        else p.told).listed = true at hl
      rw [if_neg hk] at hl
      rcases h.listed hl with ⟨f, hf, hlist⟩ | hreg
      · exact Or.inl ⟨f, List.mem_append_left _ hf, hlist⟩
      · exact Or.inr hreg
  · rintro (hin | ⟨id', he⟩)
    · exact hhello.trans (h.unheard (Or.inl hin))
    · cases he
  · intro id' appId he
    cases he
  · intro id' tools he
    cases he
  · intro kind' body' b he
    cases he
  · intro f hf b hb
    rcases List.mem_append.mp hf with hf | hf
    · obtain ⟨body', hs, hbody⟩ := h.frames f hf b hb
      exact ⟨body', hsays _ _ hs, hbody⟩
    · rw [List.mem_singleton.mp hf] at hb ⊢
      exact ⟨body, hsays _ _ (h.replying kind body b hp hb), rfl⟩

/-- No step of the server leaves the handshake uninformed. -/
theorem Informed.peer {p p' : Peer} {pc : SetupPc} {a : PeerAct} (h : Informed p pc)
    (hst : p.Step a p') (hok : p.Ok) (hasks : p.asks = asked pc) : Informed p' pc := by
  cases hst with
  | change =>
      exact ⟨h.carries, h.short, h.listed, h.unheard, h.marking, h.listing, h.replying, h.frames⟩
  | notify ho =>
      refine ⟨h.carries, h.short, fun hl => ?_, h.unheard, h.marking, h.listing, h.replying,
        fun f hf a ha => ?_⟩
      · rcases h.listed hl with ⟨f, hf, hlist⟩ | hreg
        · exact Or.inl ⟨f, List.mem_append_left _ hf, hlist⟩
        · exact Or.inr hreg
      · rcases List.mem_append.mp hf with hf | hf
        · exact h.frames f hf a ha
        · have hnone := List.filterMap_eq_nil_iff.mp (announcement_answers p.initialized) f hf
          rw [hnone] at ha
          cases ha
  | @recv req rest hp hi =>
      have hserves := serves_handleRequest req
      refine ⟨h.carries, h.short, h.listed, ?_, ?_, ?_, ?_, h.frames⟩
      · rintro (⟨a, ha, hk⟩ | ⟨id, he⟩)
        · refine h.unheard (Or.inl ⟨a, ?_, hk⟩)
          rw [hi]
          obtain ⟨r, hr, hra⟩ := List.mem_filterMap.mp ha
          exact List.mem_filterMap.mpr ⟨r, List.mem_cons_of_mem _ hr, hra⟩
        · change handleRequest req = .hello id at he
          rw [he] at hserves
          refine h.unheard (Or.inl ⟨⟨.hello, id.reparse⟩, ?_, rfl⟩)
          rw [hi]
          exact List.mem_filterMap.mpr ⟨req, List.mem_cons_self, hserves⟩
      · intro id appId he
        change handleRequest req = _ at he
        rw [he] at hserves
        simp only [askOf, he, Serves] at hserves
        cases hserves
      · intro id tools he
        change handleRequest req = _ at he
        rw [he] at hserves
        simp only [askOf, he, Serves] at hserves
        cases hserves
      · intro kind body a he hs
        obtain ⟨id, hid⟩ := handleRequest_reply he
        change askOf req = some a at hs
        change handleRequest req = _ at he
        simp only [askOf, he, hid, Option.map_some] at hs
        cases hs
        trivial
  | dispatch hp => exact h.dispatch hok hasks hp
  | @handler id tool args inner hp =>
      have hserves := hok.serves
      rw [hp] at hserves
      exact absurd rfl (serving_handshake hasks hserves)
  | answer hp => exact h.answer hok hp

/-! ## What is noted -/

/-- What the handshake notes of a view. -/
structure Noting {α : Type} (V : View α) where
  noted : Told → Option α
  blank : noted .start = none
  hears : ∀ (told : Told) (r : Registry) (pc : ServePc), told.listed = false →
    (∀ id, pc = .hello id → told.helloId = []) →
    noted (told.hear r pc) = some (V.current r) ∨ noted (told.hear r pc) = noted told
  lists : ∀ told : Told, noted { told with listed := true } = noted told
  recorded : ∀ {told : Told} {c : ConnId} {appId : CStr} {resp : Json} {b : Backend},
    Carries told (.register c appId resp) → told.Short →
    b.tools = toolsOf (resp.getObjectItemCaseSensitive (ascii "result")) →
    b.appId = snprintf 33 appId → noted told = some (V.cached b)

/-- The app id recorded fits the buffer. -/
theorem Told.Short.appId {told : Told} {a : CStr} (h : told.Short) (ha : told.appId = some a) :
    snprintf 33 a = a := by
  unfold Told.appId at ha
  split at ha
  · cases ha
    exact h.1
  · exact h.2 a ha

def toolsNoting : Noting toolsView where
  noted := Told.tools
  blank := rfl
  hears told r pc hl _ := by
    cases pc with
    | listTools id => exact Or.inl (by simp only [Told.hear, hl, Bool.false_eq_true, if_false]; rfl)
    | listAppId id tools =>
        exact Or.inr (by simp only [Told.hear, hl, Bool.false_eq_true, if_false])
    | _ => exact Or.inr rfl
  lists _ := rfl
  recorded hcarries _ htools _ := hcarries.1.trans (congrArg some htools.symm)

def appIdNoting : Noting appIdView where
  noted := Told.appId
  blank := rfl
  hears told r pc hl hhello := by
    cases pc with
    | hello id =>
        by_cases hr : r.appId = []
        · right
          simp [Told.appId, Told.hear, hr, hhello id rfl]
        · left
          simp [Told.appId, Told.hear, hr, appIdView]
    | listTools id =>
        exact Or.inr (by simp only [Told.hear, hl, Bool.false_eq_true, if_false]; rfl)
    | listAppId id tools =>
        have htold : told.hear r (.listAppId id tools) = { told with listId := some r.appId } := by
          simp only [Told.hear, hl, Bool.false_eq_true, if_false]
        rw [htold]
        by_cases hid : told.helloId = []
        · left
          simp [Told.appId, hid, appIdView]
        · right
          simp [Told.appId, hid]
    | _ => exact Or.inr rfl
  lists _ := rfl
  recorded hcarries hshort _ happ := by
    rw [hcarries.2]
    exact congrArg some ((hshort.appId hcarries.2).symm.trans happ.symm)

section

variable {α : Type} {V : View α} {N : Noting V} {c : ConnId} {p p' : Peer} {pc : SetupPc}

/-- The server, what the handshake notes, and the announcements it leaves to the reader. -/
def setupLink (N : Noting V) (p : Peer) (line : List Frame) : Link α where
  current := V.current p.registry
  owed := p.owed
  asked := 0
  taken := none
  line := line.filterMap V.note
  due := false
  held := none
  copy := N.noted p.told

/-- What is noted is coherent with the server. -/
def Notes (N : Noting V) (p : Peer) (pc : SetupPc) : Prop :=
  (setupLink N p (survivors pc p.outbox)).Coherent V.toRecording

/-- An announcement that is not heard leaves nothing stale behind it. -/
def Heard (N : Noting V) (p : Peer) : Prop :=
  p.told.listed = false → p.owed = 1 →
    N.noted p.told = none ∨ N.noted p.told = some (V.current p.registry)

theorem setupLink_congr {line : List Frame} (hr : p'.registry = p.registry)
    (ho : p'.owed = p.owed) (hn : N.noted p'.told = N.noted p.told) :
    setupLink N p' line = setupLink N p line := by
  simp only [setupLink, hr, ho, hn]

/-- Nothing on the line answers a request. -/
theorem survivors_values {line : List Frame} (h : ∀ f ∈ line, f.answers = none) :
    (line.filterMap V.note).filterMap Note.value = [] := by
  rw [List.filterMap_filterMap, List.filterMap_eq_nil_iff]
  intro f hf
  simp [View.note, h f hf]

theorem survivors_sub (pc : SetupPc) (outbox : List Frame) :
    ∀ f ∈ survivors pc outbox, f ∈ outbox := by
  intro f hf
  unfold survivors at hf
  split at hf
  · exact hf
  · exact List.dropWhile_suffix _ |>.subset (List.mem_of_mem_tail hf)

/-- The server announces a change. -/
theorem Notes.notify {n : Nat} (h : Notes N p pc) (hi : Informed p pc) (hg : Greets p pc)
    (hheard : Heard N p) (ho : p.owed = n + 1) :
    Notes N { p with owed := n, outbox := p.outbox ++ announcement p.initialized } pc := by
  by_cases hlate : (∃ f ∈ p.outbox, f.isList = true) ∨
      ∃ c appId resp, pc = .register c appId resp
  · -- the announcement is behind the reply: the reader will get it
    have hinit : p.initialized = true := by
      refine hg.2 ?_
      rcases hlate with ⟨f, hf, hlist⟩ | ⟨c, appId, resp, rfl⟩
      · obtain ⟨a, ha, hk⟩ := Option.map_eq_some_iff.mp (of_decide_eq_true hlist)
        have hmem : a ∈ asked pc := by
          rw [← hg.1, Peer.asks, List.append_assoc]
          exact List.mem_append_left _ (List.mem_filterMap.mpr ⟨f, hf, ha⟩)
        unfold asked at hmem
        split at hmem
        · rw [List.mem_singleton.mp hmem] at hk
          cases hk
        · trivial
        · cases hmem
      · trivial
    have hsurv : survivors pc (p.outbox ++ announcement p.initialized) =
        survivors pc p.outbox ++ announcement p.initialized := by
      rcases hlate with hlist | ⟨c, appId, resp, rfl⟩
      · cases pc with
        | register c appId resp => rfl
        | _ => exact behind_append hlist
      · rfl
    have hlink : setupLink N { p with
          owed := n, outbox := p.outbox ++ announcement p.initialized }
        (survivors pc (p.outbox ++ announcement p.initialized)) =
        { setupLink N p (survivors pc p.outbox) with
          owed := n, line := (setupLink N p (survivors pc p.outbox)).line ++ [.changed] } := by
      rw [hsurv]
      simp only [setupLink, hinit, announcement, List.filterMap_append]
      rfl
    unfold Notes
    rw [hlink]
    exact Link.Coherent.announce h n
  · -- the handshake discards it
    rw [not_or] at hlate
    have hnone : ∀ f ∈ p.outbox ++ announcement p.initialized, f.isList = false := by
      intro f hf
      rcases List.mem_append.mp hf with hf | hf
      · by_contra hl
        exact hlate.1 ⟨f, hf, by simpa using hl⟩
      · have := List.filterMap_eq_nil_iff.mp (announcement_answers p.initialized) f hf
        simp [Frame.isList, this]
    have hsurv : ∀ outbox : List Frame, (∀ f ∈ outbox, f.isList = false) →
        survivors pc outbox = [] := by
      intro outbox hout
      cases pc with
      | register c appId resp => exact absurd ⟨c, appId, resp, rfl⟩ hlate.2
      | _ => exact behind_none hout
    have hunlisted : p.told.listed = false := by
      by_contra hl
      rw [Bool.not_eq_false] at hl
      rcases hi.listed hl with hlist | hreg
      · exact hlate.1 hlist
      · exact hlate.2 hreg
    have hbefore := hsurv p.outbox fun f hf => hnone f (List.mem_append_left _ hf)
    unfold Notes at h ⊢
    rw [hbefore] at h
    rw [hsurv _ hnone]
    have hlink : setupLink N { p with
        owed := n, outbox := p.outbox ++ announcement p.initialized } [] =
          { setupLink N p [] with owed := n } := rfl
    rw [hlink]
    refine Link.Coherent.miss h ?_
    by_cases hn : n = 0
    · right
      rcases hheard hunlisted (by omega) with hno | hsome
      · exact Or.inl hno
      · right
        simp [Link.chain, setupLink, hsome]
    · exact Or.inl (Nat.pos_of_ne_zero hn)

/-- While a request is served, and right after its reply, nothing survives the handshake. -/
theorem survivors_serving {outbox : List Frame} {a : Ask} (h : asked pc = [a])
    (hout : ∀ f ∈ outbox, f.isList = false) (last : Frame) :
    survivors pc (outbox ++ [last]) = [] ∧ survivors pc outbox = [] := by
  have hbehind : behind (outbox ++ [last]) = [] := by
    induction outbox with
    | nil =>
        cases hl : last.isList with
        | true => exact behind_list hl
        | false => exact behind_cons hl
    | cons f rest ih =>
        rw [List.cons_append, behind_cons (hout f List.mem_cons_self)]
        exact ih fun g hg => hout g (List.mem_cons_of_mem _ hg)
  cases pc with
  | register c appId resp => cases h
  | _ => exact ⟨hbehind, behind_none hout⟩

/-- Each step of the server keeps what is noted coherent, if its announcements are heard. -/
theorem Notes.peer {a : PeerAct} (h : Notes N p pc) (hst : p.Step a p') (hok : p.Ok)
    (hi : Informed p pc) (hg : Greets p pc) (hheard : a = .notify → Heard N p) :
    Notes N p' pc := by
  have hserves := hok.serves
  have hsame : ∀ {q : Peer}, survivors pc q.outbox = survivors pc p.outbox →
      q.registry = p.registry → q.owed = p.owed → N.noted q.told = N.noted p.told →
        Notes N q pc := by
    intro q hs hr ho hn
    unfold Notes
    rw [hs, setupLink_congr hr ho hn]
    exact h
  cases hst with
  | @change op =>
      cases hop : (op.apply p.registry).2 with
      | true => exact Link.Coherent.change h (V.grows p.registry op)
      | false => exact hsame rfl (change_same hop) rfl rfl
  | notify ho => exact h.notify hi hg (hheard rfl) ho
  | recv hp hx => exact hsame rfl rfl rfl rfl
  | @dispatch pc' mark hp =>
      have hserving : ∃ a, p.serving = some a := by
        cases hpc : p.pc with
        | hello id => rw [hpc] at hserves; exact ⟨_, hserves⟩
        | markInitialized id appId => rw [hpc] at hserves; exact ⟨_, hserves⟩
        | listTools id => rw [hpc] at hserves; exact ⟨_, hserves⟩
        | listAppId id tools => rw [hpc] at hserves; exact ⟨_, hserves⟩
        | findTool id name args => rw [hpc] at hserves; exact ⟨_, hserves⟩
        | _ => rw [hpc] at hp; cases hp
      obtain ⟨a, ha⟩ := hserving
      obtain ⟨-, hout, -⟩ := serving_alone hg.1 ha
      rcases N.hears p.told p.registry p.pc (hi.unlisted hg.1 ha)
        (fun id hid => hi.unheard (Or.inr ⟨id, hid⟩)) with hn | hn
      · have hvalues : (setupLink N p (survivors pc p.outbox)).line.filterMap Note.value = [] :=
          survivors_values fun f hf => hout f (survivors_sub pc p.outbox f hf)
        have hlink : setupLink N { p with
              pc := pc', initialized := p.initialized || mark
              told := p.told.hear p.registry p.pc } (survivors pc p.outbox) =
            { setupLink N p (survivors pc p.outbox) with
              copy := some (setupLink N p (survivors pc p.outbox)).current } := by
          simp only [setupLink, hn]
        unfold Notes
        rw [hlink]
        exact Link.Coherent.begin rfl rfl hvalues
      · exact hsame rfl rfl rfl hn
  | @handler id tool args inner hp =>
      rw [hp] at hserves
      exact absurd rfl (serving_handshake hg.1 hserves)
  | @answer kind body hp =>
      rw [hp] at hserves
      obtain ⟨a, ha, -⟩ := hserves
      obtain ⟨hone, hout, -⟩ := serving_alone hg.1 ha
      obtain ⟨hnew, hold⟩ := survivors_serving hone (fun f hf => by simp [Frame.isList, hout f hf])
        ⟨p.serving, body.reparse⟩
      refine hsame (hnew.trans hold.symm) rfl rfl ?_
      change N.noted (if p.serving.map Ask.kind = some .list then { p.told with listed := true }
        else p.told) = N.noted p.told
      split
      · exact N.lists p.told
      · rfl

/-! ## The setup thread's steps -/

/-- The handshake writes a request. -/
theorem Informed.sent {ph : Phase} {req : List Json} (h : Informed p (.send c ph))
    (hreq : ∀ r ∈ req, ∀ a, askOf r = some a → a.kind = .hello → ph = .hello) :
    Informed (p.exchange p.outbox req) (.recv c ph 0) := by
  refine ⟨?_, h.short, fun hl => ?_, ?_, h.marking, h.listing, h.replying, h.frames⟩
  · cases ph with
    | hello => trivial
    | list appId => exact h.carries
  · rcases h.listed hl with hlist | ⟨c', appId, resp, he⟩
    · exact Or.inl hlist
    · cases he
  · rintro (⟨a, ha, hk⟩ | hid)
    · rw [show (p.exchange p.outbox req).inbox = p.inbox ++ req from rfl, List.filterMap_append] at ha
      rcases List.mem_append.mp ha with ha | ha
      · exact h.unheard (Or.inl ⟨a, ha, hk⟩)
      · obtain ⟨r, hr, hra⟩ := List.mem_filterMap.mp ha
        have hcarries := h.carries
        rw [hreq r hr a hra hk] at hcarries
        exact hcarries
    · exact h.unheard (Or.inr hid)

/-- `serverInfo.appId` of the server's `initialize` reply. -/
theorem helloAppId_reply {id : Json} {version appId : CStr} (h : snprintf 33 appId = appId) :
    helloAppId (jsonrpcResult id (Server.initializeResult version appId)).reparse = appId := by
  have hversion : ¬ ascii "protocolVersion" = ascii "serverInfo" := by decide
  have hcaps : ¬ ascii "capabilities" = ascii "serverInfo" := by decide
  have hname : ¬ ascii "name" = ascii "appId" := by decide
  have hver : ¬ ascii "version" = ascii "appId" := by decide
  unfold helloAppId
  rw [result_reply]
  by_cases happ : appId = []
  · simp [Server.initializeResult, fields, Json.getObjectItem_obj_cons, hversion, hcaps, hname,
      hver, happ, optField, Json.string?]
  · simp [Server.initializeResult, fields, Json.getObjectItem_obj_cons, hversion, hcaps, hname,
      hver, happ, optField, Json.string?, h]

/-- The app id recorded is the one told. -/
theorem joinAppId_reply {told : Told} {id : Json} {tools : List Json} {appId : CStr}
    (hs : told.Short) (hl : told.listId = some appId) :
    told.appId = some (joinAppId told.helloId
      (jsonrpcResult id (toolsListResult tools appId)).reparse) := by
  unfold Told.appId joinAppId
  by_cases hh : told.helloId = []
  · rw [if_neg (by simp [hh]), if_pos hh, hl, result_reply, Option.bind_some,
      metaAppId_toolsListResult]
    by_cases ha : appId = []
    · rw [if_pos ha, ha]
    · rw [if_neg ha]
      exact congrArg some (hs.2 appId hl).symm
  · rw [if_pos hh, if_neg hh]

/-- The handshake reads a frame. -/
theorem Informed.read {ph : Phase} {k : Nat} {f : Frame} {rest : List Frame}
    (h : Informed p (.recv c ph k)) (hg : Greets p (.recv c ph k)) (hok : p.Ok)
    (hx : p.outbox = f :: rest) (hc : (syncStep c ph k (.msg f.body)).conn = some c) :
    Informed (p.exchange rest []) (syncStep c ph k (.msg f.body)) := by
  have hinbox : (p.exchange rest []).inbox = p.inbox := List.append_nil p.inbox
  have hmoved : ∀ pc', Carries p.told pc' →
      (p.told.listed = true → (∃ f ∈ rest, f.isList = true) ∨
        ∃ c appId resp, pc' = .register c appId resp) → Informed (p.exchange rest []) pc' := by
    intro pc' hcarries hlisted
    refine ⟨hcarries, h.short, hlisted, ?_, h.marking, h.listing, h.replying, fun g hgr => ?_⟩
    · rw [hinbox]
      exact h.unheard
    · exact h.frames g (hx ▸ List.mem_cons_of_mem _ hgr)
  have hlater : f.isList = false → p.told.listed = true → ∃ g ∈ rest, g.isList = true := by
    intro hf hl
    rcases h.listed hl with ⟨g, hgm, hlist⟩ | ⟨c', appId, resp, he⟩
    · rw [hx] at hgm
      rcases List.mem_cons.mp hgm with rfl | hgm
      · rw [hf] at hlist
        cases hlist
      · exact ⟨g, hgm, hlist⟩
    · cases he
  have hcases := syncStep_cases hg hok hx
  generalize syncStep c ph k (.msg f.body) = pc' at hcases hc
  cases hcases with
  | skipped hf hpc hasks =>
      rcases hpc with rfl | rfl
      · refine hmoved _ ?_ fun hl => Or.inl (hlater (by simp [Frame.isList, hf]) hl)
        cases ph with
        | hello => trivial
        | list appId => exact h.carries
      · cases hc
  | @greeted a hf hk hasks =>
      obtain ⟨body, hsays, hbody⟩ := h.frames f (hx ▸ List.mem_cons_self) a hf
      rw [hk] at hsays
      obtain ⟨id, version, rfl⟩ := hsays
      refine hmoved _ ?_ fun hl => Or.inl (hlater (by simp [Frame.isList, hf, hk]) hl)
      rw [hbody]
      exact helloAppId_reply h.short.1
  | @listed a appId hf hk hasks =>
      obtain ⟨body, hsays, hbody⟩ := h.frames f (hx ▸ List.mem_cons_self) a hf
      rw [hk] at hsays
      obtain ⟨id, tools, app, rfl, htools, hlistId⟩ := hsays
      have hcarries : appId = p.told.helloId := h.carries
      refine hmoved _ ⟨?_, ?_⟩ fun _ => Or.inr ⟨_, _, _, rfl⟩
      · rw [hbody, result_reply, toolsOf_toolsListResult]
        exact htools
      · rw [hbody, hcarries]
        exact joinAppId_reply h.short hlistId

/-- What the reader will get to read is the same before and after the handshake's read. -/
theorem survivors_read {ph : Phase} {k : Nat} {f : Frame} {rest : List Frame}
    (hg : Greets p (.recv c ph k)) (hok : p.Ok) (hx : p.outbox = f :: rest)
    (hc : (syncStep c ph k (.msg f.body)).conn = some c) :
    survivors (syncStep c ph k (.msg f.body)) rest = survivors (.recv c ph k) p.outbox := by
  have hcases := syncStep_cases hg hok hx
  generalize syncStep c ph k (.msg f.body) = pc' at hcases hc
  show _ = behind p.outbox
  rw [hx]
  cases hcases with
  | skipped hf hpc hasks =>
      rw [behind_cons (by simp [Frame.isList, hf])]
      rcases hpc with rfl | rfl
      · rfl
      · cases hc
  | greeted hf hk hasks =>
      rw [behind_cons (by simp [Frame.isList, hf, hk])]
      rfl
  | listed hf hk hasks =>
      rw [behind_list (by simp [Frame.isList, hf, hk])]
      rfl

end

end DisplayxrMcp.Pair
