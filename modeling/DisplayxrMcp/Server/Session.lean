/-
  A client's session, down to the bytes (src/mcp_server.c, serve and
  broadcast_notification, with external/cjson/cJSON.c).

  The environment supplies what a text can carry: frames read off a connection and parsed,
  handlers' values and schemas that are not nested too deep (`Supplied`). Then so are all
  replies (`carries_reach`), and what the bytes on a client's connection say to the peer is
  what the server's log says it has sent there (`client_reads`). `session` adds the other
  direction: the requests are read off the bytes that the client has written.
-/
import DisplayxrMcp.Lib.Logged
import DisplayxrMcp.Server.Discipline
import DisplayxrMcp.Wire.Messages

namespace DisplayxrMcp.Server

open Lib Cjson Lts Wire

/-! ## What the environment supplies -/

/-- The strings of a descriptor are C strings; its schema is not nested too deep to be listed. -/
structure Tool.Carries (t : Tool) : Prop where
  name : 0 ∉ t.name
  description : ∀ d ∈ t.description, 0 ∉ d
  schema : ∀ j ∈ t.inputSchema, Carried 996 j

/-- The reply that is about to be written. -/
def ServePc.due : ServePc → Option Json
  | .reply _ body => some body
  | _ => none

/-- What the environment does: it registers such tools, delivers what is read of some bytes, its
    handlers' values are not nested too deep for a reply, and no reply is too long to be read. -/
def Supplied [Abi] (s : State) : Act → Prop
  | .change _ (.register tool) => tool.Carries
  | .recv _ f => ∃ src, (inbound src).1 = f
  | .handler _ inner => ∀ j ∈ inner, Carried 998 j
  | .lockWrite k => ∀ cl ∈ s.clients k, ∀ body ∈ cl.pc.due, body.text.length ≤ Stdio.maxMessageBytes
  | _ => True

/-- The server prints with cJSON. -/
def Prints (s : State) : Prop := s.printText = Json.text ∧ ∀ t ∈ s.registry.tools, t.Carries

/-- The server in such an environment. -/
abbrev supplied [Abi] : Lts.System State Act := server.restrict Prints Supplied

/-! ## Trees that can be carried -/

/-- Names that are C strings, and values that can be carried. -/
def Members (levels : Nat) (ms : List (CStr × Json)) : Prop :=
  ∀ m ∈ ms, 0 ∉ m.1 ∧ Carried levels m.2

variable {levels : Nat}

theorem members_nil : Members levels [] := List.forall_mem_nil _

theorem Members.cons {ms : List (CStr × Json)} {j : Json} (h : Members levels ms) (name : String)
    (hname : 0 ∉ ascii name) (hj : Carried levels j) : Members levels ((ascii name, j) :: ms) :=
  List.forall_mem_cons.mpr ⟨⟨hname, hj⟩, h⟩

theorem Members.append {ms ns : List (CStr × Json)} (h : Members levels ms)
    (h' : Members levels ns) : Members levels (ms ++ ns) :=
  fun m hm => (List.mem_append.mp hm).elim (h m) (h' m)

theorem Members.obj {ms : List (CStr × Json)} (h : Members levels ms) :
    Carried (levels + 1) (.obj ms) :=
  .obj (fun m hm => (h m hm).1) fun m hm => (h m hm).2

theorem members_optField {name : String} {v : Option Json} (hname : 0 ∉ ascii name)
    (hv : ∀ j ∈ v, Carried levels j) : Members levels (optField name v) := by
  cases v with
  | none => exact members_nil
  | some j => exact members_nil.cons name hname (hv j rfl)

theorem carried_text {s : String} (h : 0 ∉ ascii s) : Carried levels (text s) := .str h

/-- An int is a double. -/
theorem carried_int {n : ℤ} (h : n.natAbs ≤ 2 ^ 31) : Carried levels (.num (.fin n)) := by
  refine .num ?_
  show InRange n
  rcases eq_or_ne n 0 with rfl | hn
  · exact Or.inl Int.cast_zero
  · have hone : 1 ≤ |(n : ℚ)| := by exact_mod_cast Int.one_le_abs hn
    have hmax : |(n : ℚ)| ≤ 2 ^ 31 := by
      rw [← Int.cast_abs, Int.abs_eq_natAbs]
      exact_mod_cast h
    refine Or.inr ⟨le_trans (inv_le_one_of_one_le₀ (one_le_pow₀ (by norm_num))) hone, ?_⟩
    exact lt_of_le_of_lt hmax (pow_lt_pow_right₀ (by norm_num) (by norm_num))

theorem members_envelope {id : Option Json} (hid : ∀ i ∈ id, Carried levels i) :
    Members levels (envelope id) := by
  have hversion : Carried levels (text "2.0") := carried_text (by decide)
  cases id with
  | none => exact members_nil.cons "jsonrpc" (by decide) hversion
  | some id =>
      exact (members_nil.cons "id" (by decide) (hid id rfl)).cons "jsonrpc" (by decide) hversion

theorem carried_result {id res : Json} (hid : Carried 999 id) (hres : Carried 999 res) :
    Carried nestingLimit (jsonrpcResult id res) := by
  have hid' : ∀ i ∈ some id, Carried 999 i := by
    rintro i hi
    cases hi
    exact hid
  show Carried (999 + 1) _
  exact ((members_envelope hid').append (members_nil.cons "result" (by decide) hres)).obj

/-- An error reply with a message that is a C string. -/
theorem carried_error {id : Option Json} (hid : ∀ i ∈ id, Carried 999 i) {code : ℤ}
    (hcode : code.natAbs ≤ 2 ^ 31) {message : String} (hm : 0 ∉ ascii message) :
    Carried nestingLimit (jsonrpcError id code message) := by
  have herr : Carried 999 (fields [("code", .num (.fin code)), ("message", text message)]) :=
    ((members_nil.cons "message" (by decide) (carried_text hm)).cons "code" (by decide)
      (carried_int hcode)).obj
  show Carried (999 + 1) _
  exact ((members_envelope hid).append (members_nil.cons "error" (by decide) herr)).obj

theorem carried_callResult {inner : Json} (h : Carried 998 inner) :
    Carried 999 (callResult inner.text inner) := by
  have hprinted : Carried 996 (.str inner.text) :=
    .str fun hnul => absurd (text_printable inner 0 hnul) (by decide)
  have hitem : Carried 997 (fields [("type", text "text"), ("text", .str inner.text)]) :=
    ((members_nil.cons "text" (by decide) hprinted).cons "type" (by decide)
      (carried_text (by decide))).obj
  have hcontent : Carried 998 (.arr [fields [("type", text "text"), ("text", .str inner.text)]]) :=
    .arr (List.forall_mem_singleton.mpr hitem)
  have hflag : ∀ j ∈ (if inner.getObjectItemCaseSensitive (ascii "isError") = some (.bool true)
      then some (.bool true) else none : Option Json), Carried 998 j := by
    intro j hj
    split at hj
    · cases hj
      exact .bool
    · cases hj
  exact (((members_nil.cons "content" (by decide) hcontent).append
    (members_optField (by decide) hflag)).append (members_nil.cons "structured" (by decide) h)).obj

/-- An app id is empty or a slug. -/
theorem Registry.appId_carried (r : Registry) : 0 ∉ r.appId := by
  rcases r.slug with h | h
  · rw [h]
    exact List.not_mem_nil
  · cases hid : r.appId with
    | nil => exact List.not_mem_nil
    | cons c rest =>
        rw [hid] at h
        simp only [appIdValid, Bool.and_eq_true, decide_eq_true_eq, List.all_eq_true] at h
        have hnul : isAlnum 0 = false := by decide
        intro hmem
        rcases List.mem_cons.mp hmem with rfl | hmem
        · rw [hnul] at h
          exact Bool.false_ne_true h.1.2
        · exact absurd (h.2 0 hmem) (by decide)

theorem carried_initializeResult {version appId : CStr} (hv : 0 ∉ version) (h : 0 ∉ appId) :
    Carried 999 (initializeResult version appId) := by
  have htools : Carried 997 (fields [("listChanged", .bool true)]) :=
    (members_nil.cons "listChanged" (by decide) .bool).obj
  have hcaps : Carried 998 (fields [("tools", fields [("listChanged", .bool true)])]) :=
    (members_nil.cons "tools" (by decide) htools).obj
  have hid : ∀ j ∈ (if appId ≠ [] then some (.str appId) else none : Option Json),
      Carried 997 j := by
    intro j hj
    split at hj
    · cases hj
      exact .str h
    · cases hj
  have hinfo : Carried 998 (.obj ([(ascii "name", text "displayxr-mcp"),
      (ascii "version", .str version)] ++
        optField "appId" (if appId ≠ [] then some (.str appId) else none))) :=
    (((members_nil.cons "version" (by decide) (.str hv)).cons "name" (by decide)
      (carried_text (by decide))).append (members_optField (by decide) hid)).obj
  exact (((members_nil.cons "serverInfo" (by decide) hinfo).cons "capabilities" (by decide)
    hcaps).cons "protocolVersion" (by decide) (carried_text (by decide))).obj

theorem carried_listEntry {t : Tool} (h : t.Carries) : Carried 997 (listEntry t) := by
  have hgroup : 0 ∉ groupName t.group := by
    cases t.group <;> decide
  have hmeta : Carried 996 (fields [("displayxr/group", .str (groupName t.group))]) :=
    (members_nil.cons "displayxr/group" (by decide) (.str hgroup)).obj
  have hdesc : ∀ j ∈ t.description.map Json.str, Carried 996 j := by
    intro j hj
    obtain ⟨d, hd, rfl⟩ := Option.map_eq_some_iff.mp hj
    exact .str (h.description d hd)
  exact ((((members_nil.cons "name" (by decide) (.str h.name)).append
    (members_optField (by decide) hdesc)).append (members_optField (by decide) h.schema)).append
      (members_nil.cons "_meta" (by decide) hmeta)).obj

theorem carried_toolsListResult {tools : List Json} (h : ∀ t ∈ tools, Carried 997 t) {appId : CStr}
    (hid : 0 ∉ appId) : Carried 999 (toolsListResult tools appId) := by
  have hmeta : ∀ j ∈ (if appId ≠ [] then some (fields [("displayxr/appId", .str appId)])
      else none : Option Json), Carried 998 j := by
    intro j hj
    split at hj
    · cases hj
      exact (members_nil.cons "displayxr/appId" (by decide) (.str hid)).obj
    · cases hj
  exact ((members_optField (by decide) hmeta).cons "tools" (by decide) (.arr h)).obj

theorem carried_listChanged : Carried nestingLimit listChanged :=
  ((members_nil.cons "method" (by decide) (carried_text (by decide))).cons "jsonrpc" (by decide)
    (carried_text (by decide))).obj

/-! ## What the server holds -/

/-- What a point of the serve loop holds can be carried by the reply. -/
def ServePc.Carries : ServePc → Prop
  | .read | .closing => True
  | .hello id | .listTools id | .findTool id _ _ | .call id _ _ => Carried 999 id
  | .markInitialized id appId => Carried 999 id ∧ 0 ∉ appId
  | .listAppId id tools => Carried 999 id ∧ ∀ t ∈ tools, Carried 997 t
  | .reply _ body => Carried nestingLimit body
  | .write _ body => Sendable Stdio.maxMessageBytes body

theorem onFrame_carries [Abi] (src : Source UInt8) : (onFrame (inbound src).1).Carries := by
  unfold inbound
  split
  · trivial
  · next body src' hread =>
      dsimp only
      unfold received
      split
      · next j hj =>
          have hcarried : Carried (999 + 1) j := parseWithLength_carried hj
          have hid : ∀ {id : Json}, idOf j = some id → Carried 999 id := fun h => hcarried.member h
          have herr : ∀ {id : Json}, idOf j = some id → ∀ i ∈ some id, Carried 999 i := by
            rintro id h i hi
            cases hi
            exact hid h
          change (handleRequest j).Carries
          unfold handleRequest
          dsimp only
          split
          · trivial
          · next hi => exact carried_error (herr hi) (by decide) (by decide)
          · trivial
          · next hi =>
              split
              · exact hid hi
              · split
                · exact carried_result (hid hi) (.obj (List.forall_mem_nil _) (List.forall_mem_nil _))
                · split
                  · exact hid hi
                  · split
                    · split
                      · exact carried_error (herr hi) (by decide) (by decide)
                      · exact hid hi
                    · exact carried_error (herr hi) (by decide) (by decide)
      · refine carried_error ?_ (by decide) (by decide)
        rintro i hi
        cases hi

theorem ServePc.Carries.dispatch {r : Registry} {pc pc' : ServePc} {mark : Bool}
    (h : pc.Carries) (hr : ∀ t ∈ r.tools, t.Carries)
    (hd : dispatchStep r pc = some (pc', mark)) : pc'.Carries := by
  cases pc with
  | hello id =>
      cases hd
      exact ⟨h, r.appId_carried⟩
  | markInitialized id appId =>
      cases hd
      exact carried_result h.1 (carried_initializeResult r.literal h.2)
  | listTools id =>
      cases hd
      refine ⟨h, fun t ht => ?_⟩
      obtain ⟨tool, htool, rfl⟩ := List.mem_map.mp ht
      exact carried_listEntry (hr tool htool)
  | listAppId id tools =>
      cases hd
      exact carried_result h.1 (carried_toolsListResult h.2 r.appId_carried)
  | findTool id name args =>
      simp only [dispatchStep] at hd
      split at hd
      · cases hd
        refine carried_error ?_ (by decide) (by decide)
        rintro i hi
        cases hi
        exact h
      · cases hd
        exact h
  | _ => cases hd

theorem carried_handlerReply {id : Json} (hid : Carried 999 id) {inner : Option Json}
    (hinner : ∀ j ∈ inner, Carried 998 j) :
    Carried nestingLimit (handlerReply Json.text id inner) := by
  cases inner with
  | none =>
      refine carried_error ?_ (by decide) (by decide)
      rintro i hi
      cases hi
      exact hid
  | some inner => exact carried_result hid (carried_callResult (hinner inner rfl))

/-- All that the server holds can be carried. -/
structure Carries (s : State) : Prop where
  prints : Prints s
  loop : ∀ k cl, s.clients k = some cl → cl.pc.Carries

theorem tools_apply {r : Registry} {op : Change} (h : ∀ t ∈ r.tools, t.Carries)
    (hop : ∀ tool, op = .register tool → tool.Carries) :
    ∀ t ∈ (op.apply r).1.tools, t.Carries := by
  cases op with
  | register tool =>
      change ∀ t ∈ (registerTool r tool).1.tools, t.Carries
      unfold registerTool
      split
      · intro t ht
        rcases List.mem_append.mp ht with ht | ht
        · exact h t ht
        · rw [List.mem_singleton.mp ht]
          exact hop tool rfl
      · exact h
  | unregister name =>
      change ∀ t ∈ (unregisterTool r name).1.tools, t.Carries
      unfold unregisterTool
      split
      · exact fun t ht => h t (List.mem_of_mem_eraseIdx ht)
      · exact h
  | setAppId id =>
      change ∀ t ∈ (setAppId r id).1.tools, t.Carries
      unfold setAppId
      split
      · split
        · exact h
        · exact h
      · exact h

theorem Carries.setClient {s : State} (h : Carries s) {k : Fin maxConns} {cl : Client}
    (hcl : cl.pc.Carries) : Carries (s.setClient k cl) := by
  refine ⟨h.prints, fun j d hd => ?_⟩
  rcases Slots.put_some hd with ⟨-, rfl⟩ | hd
  · exact hcl
  · exact h.loop j d hd

theorem carries_step [Abi] {s s' : State} {a : Act} (hst : Step s a s') (hsup : Supplied s a)
    (h : Carries s) : Carries s' := by
  cases hst with
  | accepted hm hk =>
      refine ⟨h.prints, (h.setClient ?_).loop⟩
      trivial
  | change ht =>
      refine ⟨⟨h.prints.1, tools_apply h.prints.2 ?_⟩, h.loop⟩
      rintro tool rfl
      exact hsup
  | scanTake ht hk hi hb =>
      have hcl := h.loop _ _ hk
      refine ⟨h.prints, (h.setClient ?_).loop⟩
      exact hcl
  | notifyWrite ht hk hok =>
      have hcl := h.loop _ _ hk
      refine ⟨h.prints, (h.setClient ?_).loop⟩
      exact hcl
  | recv hk hp =>
      obtain ⟨src, rfl⟩ := hsup
      exact h.setClient (onFrame_carries src)
  | dispatch hk hd => exact h.setClient ((h.loop _ _ hk).dispatch h.prints.2 hd)
  | handler hk hp =>
      have hcall := h.loop _ _ hk
      rw [hp] at hcall
      rw [h.prints.1]
      exact h.setClient (carried_handlerReply hcall hsup)
  | lockWrite hk hp hm =>
      have hbody := h.loop _ _ hk
      rw [hp] at hbody
      exact h.setClient ⟨hbody, hsup _ hk _ (by rw [hp]; rfl)⟩
  | write hk hp hok =>
      refine ⟨h.prints, (h.setClient ?_).loop⟩
      split
      · trivial
      · trivial
  | unwind hk hp hm => exact ⟨h.prints, fun j d hd => h.loop j d (Slots.clear_some hd)⟩
  | _ => exact ⟨h.prints, h.loop⟩

/-- Whatever the server replies can be carried by its text. -/
theorem carries_reach [Abi] {s : State} (h : Reach supplied s) : Carries s := by
  refine h.invariant ?_ ?_
  · rintro s ⟨⟨printText, r, rfl⟩, hprints⟩
    exact ⟨hprints, fun k cl hk => (by cases hk)⟩
  · rintro s a t _ hs ⟨hst, hsup⟩
    exact carries_step hst hsup hs

/-! ## What a client reads -/

/-- The messages sent on connection `c`, as the peer reads them. -/
def sentOn (c : ConnId) (s : State) : List Json :=
  (s.sent.filter fun f => decide (f.conn = c)).map SentFrame.body

/-- The frame of a message, and the message as the peer reads it. -/
def Says (frame : List UInt8) (body : Json) : Prop :=
  ∃ j, Sendable Stdio.maxMessageBytes j ∧ frame = writeFrame j.text ∧ body = j.reparse

/-- The frames of what was sent. -/
def Spelled (s : State) (c : ConnId) (frames : List (List UInt8)) : Prop :=
  List.Forall₂ Says frames (sentOn c s)

theorem sentOn_log (c : ConnId) (s : State) (out : List SentFrame) :
    sentOn c (s.log out) = sentOn c s ++ (out.filter fun f => decide (f.conn = c)).map SentFrame.body := by
  unfold sentOn
  rw [State.log_sent, List.filter_append, List.map_append]

/-- A frame that is written is one more that is sent. -/
theorem spelled_log {s : State} {c conn : ConnId} {kind : FrameKind} {body : Json}
    {frames : List (List UInt8)} (h : Spelled s c frames)
    (hbody : Sendable Stdio.maxMessageBytes body) :
    Spelled (s.log (frameIf true conn kind body)) c
      (if conn = c then frames ++ [writeFrame body.text] else frames) := by
  unfold Spelled
  rw [sentOn_log]
  by_cases hc : conn = c
  · rw [if_pos hc]
    refine List.rel_append h ?_
    simp only [frameIf, if_pos, hc, List.filter_cons, decide_true, List.filter_nil, List.map_cons,
      List.map_nil]
    exact .cons ⟨body, hbody, rfl, rfl⟩ .nil
  · rw [if_neg hc]
    simp only [frameIf, if_pos, List.filter_cons, hc, decide_false, Bool.false_eq_true, if_false,
      List.filter_nil, List.map_nil, List.append_nil]
    exact h

theorem sendable_listChanged : Sendable Stdio.maxMessageBytes listChanged :=
  ⟨carried_listChanged, by decide +kernel⟩

/-- The write of a step: a notification, or the reply of a serve loop. -/
theorem writes_shape {s : State} {a : Act} {w : Write ConnId UInt8} (h : s.writes a = some w) :
    (∃ t ok k cl, a = .notifyWrite t ok ∧ s.embed t = .write k ∧ s.clients k = some cl ∧
        w = frameWrite cl.conn true (s.printText listChanged)) ∨
      ∃ k ok cl kind body, a = .write k ok ∧ s.clients k = some cl ∧ cl.pc = .write kind body ∧
        w = frameWrite cl.conn false (s.printText body) := by
  cases a with
  | notifyWrite t ok =>
      unfold State.writes at h
      dsimp only at h
      split at h
      · next k ht =>
          obtain ⟨cl, hcl, rfl⟩ := Option.map_eq_some_iff.mp h
          exact Or.inl ⟨t, ok, k, cl, rfl, ht, hcl, rfl⟩
      · cases h
  | write k ok =>
      unfold State.writes at h
      dsimp only at h
      split at h
      · next cl hcl =>
          split at h
          · next kind body hp =>
              cases h
              exact Or.inr ⟨k, ok, cl, kind, body, rfl, hcl, hp, rfl⟩
          · cases h
      · cases h
  | _ => cases h

theorem writeFrame_ne_nil (text : CStr) : writeFrame text ≠ [] := by
  unfold writeFrame Stdio.header
  intro h
  cases h

/-- A step that writes nothing sends nothing. -/
theorem sent_plain {s s' : State} {a : Act} (hw : s.writes a = none) (hst : Step s a s') :
    s'.sent = s.sent := by
  cases hst with
  | notifyWrite ht hk hok =>
      rw [writes_notify _ ht hk] at hw
      cases hw
  | write hk hp hok =>
      rw [writes_reply _ hk hp] at hw
      cases hw
  | _ => rfl

/-- The server's log is one of the frames that its writes put on the connections. -/
theorem logs [Abi] : Logs supplied writers Spelled := by
  refine ⟨?_, ?_, ?_, ?_, ?_⟩
  · intro s a w hw
    rcases writes_shape hw with ⟨t, ok, k, cl, -, -, -, rfl⟩ | ⟨k, ok, cl, kind, body, -, -, -, rfl⟩
    · rw [frame_frameWrite]
      exact writeFrame_ne_nil _
    · rw [frame_frameWrite]
      exact writeFrame_ne_nil _
  · rintro s ⟨⟨printText, r, rfl⟩, -⟩ c
    exact .nil
  · rintro s a s' - hw ⟨hst, -⟩ c fs h
    unfold Spelled sentOn at h ⊢
    rw [sent_plain hw hst]
    exact h
  · rintro s a w s' hr hw ⟨hst, hsup⟩ c fs h
    have hcarries := carries_reach hr
    rcases writes_shape hw with ⟨t, ok, k, cl, rfl, ht, hk, rfl⟩ |
        ⟨k, ok, cl, kind, body, rfl, hk, hp, rfl⟩
    · cases hst with
      | notifyWrite ht' hk' hok =>
          cases ht.symm.trans ht'
          cases hk.symm.trans hk'
          rw [hcarries.prints.1]
          exact spelled_log h sendable_listChanged
    · cases hst with
      | write hk' hp' hok =>
          cases hk.symm.trans hk'
          cases hp.symm.trans hp'
          have hbody := hcarries.loop k cl hk
          rw [hp] at hbody
          rw [hcarries.prints.1]
          exact spelled_log h hbody
  · rintro s a w s' - hw ⟨hst, -⟩ c fs h
    have hsent : s'.sent = s.sent := by
      rcases writes_shape hw with ⟨t, ok, k, cl, rfl, ht, hk, rfl⟩ |
          ⟨k, ok, cl, kind, body, rfl, hk, hp, rfl⟩
      · cases hst with
        | notifyWrite ht' hk' hok => exact List.append_nil _
      · cases hst with
        | write hk' hp' hok => exact List.append_nil _
    unfold Spelled sentOn at h ⊢
    rw [hsent]
    exact h

/-- The connection is open and nobody is writing on it. -/
def Rests (s : Split State Act Mover ConnId UInt8) (c : ConnId) : Prop :=
  (s.wires c).shut = false ∧ ∀ t j, s.jobs t = some j → j.write.conn ≠ c

/-- A message is being written on connection `c`: a notification, or a reply of the serve loop. -/
def UnderWay (s : State) (c : ConnId) (body : Json) : Prop :=
  (body = listChanged ∧ ∃ t k cl, s.embed t = .write k ∧ s.clients k = some cl ∧ cl.conn = c) ∨
    ∃ kind, At s c (.write kind body)

/-- What is on a connection after the frames of the messages sent: a part of the frame of a message
    that the peer takes, and all of it only while that is under way. -/
theorem part_message [Abi] {s : Split State Act Mover ConnId UInt8} {c : ConnId} {part : List UInt8}
    (hh : Lts.Held writers s) (hr : Reach supplied s.base)
    (h : Cut supplied writers part ∨ Complete s c part) :
    ∃ k, Sendable Stdio.maxMessageBytes k ∧ part <+: writeFrame k.text ∧
      (part = writeFrame k.text → UnderWay s.base c k) := by
  rcases h with (rfl | ⟨s, a, w, hr, hw, hpart, hne⟩) | ⟨t, j, hj, rfl, -, rfl⟩
  · exact ⟨listChanged, sendable_listChanged, List.nil_prefix,
      fun he => absurd he.symm (writeFrame_ne_nil _)⟩
  · have hcarries := carries_reach hr
    rcases writes_shape hw with ⟨t, ok, k, cl, -, -, -, rfl⟩ | ⟨k, ok, cl, kind, body, -, hk, hp, rfl⟩
    · rw [frame_frameWrite, hcarries.prints.1] at hpart hne
      exact ⟨listChanged, sendable_listChanged, hpart, fun he => absurd he hne⟩
    · have hbody := hcarries.loop k cl hk
      rw [hp] at hbody
      rw [frame_frameWrite, hcarries.prints.1] at hpart hne
      exact ⟨body, hbody, hpart, fun he => absurd he hne⟩
  · have hcarries := carries_reach hr
    have hw : s.base.writes j.act = some j.write := (hh.job t j hj).2.1
    rcases writes_shape hw with ⟨t, ok, k, cl, -, ht, hk, he⟩ | ⟨k, ok, cl, kind, body, -, hk, hp, he⟩
    · rw [he, frame_frameWrite, hcarries.prints.1]
      exact ⟨listChanged, sendable_listChanged, List.prefix_rfl,
        fun _ => Or.inl ⟨rfl, t, k, cl, ht, hk, rfl⟩⟩
    · have hbody := hcarries.loop k cl hk
      rw [hp] at hbody
      rw [he, frame_frameWrite, hcarries.prints.1]
      exact ⟨body, hbody, List.prefix_rfl, fun _ => Or.inr ⟨kind, k, cl, hk, rfl, hp⟩⟩

/-- What was sent is a list of messages that the peer takes. -/
theorem spelled_messages {frames : List (List UInt8)} {bodies : List Json}
    (h : List.Forall₂ Says frames bodies) : ∃ js : List Json,
      (∀ j ∈ js, Sendable Stdio.maxMessageBytes j) ∧
      frames = js.map (fun j => writeFrame j.text) ∧ bodies = js.map Json.reparse := by
  induction h with
  | nil => exact ⟨[], List.forall_mem_nil _, rfl, rfl⟩
  | cons hsays _ ih =>
      obtain ⟨j, hj, rfl, rfl⟩ := hsays
      obtain ⟨js, hjs, rfl, rfl⟩ := ih
      exact ⟨j :: js, List.forall_mem_cons.mpr ⟨hj, hjs⟩, rfl, rfl⟩

/-- What is on connection `c`: the frames of the messages `js` and a part of one more, `part`. -/
structure Standing (s : Split State Act Mover ConnId UInt8) (c : ConnId) (js : List Json)
    (part : List UInt8) : Prop where
  sendable : ∀ j ∈ js, Sendable Stdio.maxMessageBytes j
  out : (s.wires c).out = (js.map fun j => writeFrame j.text).flatten ++ part
  cut : ∃ k, Sendable Stdio.maxMessageBytes k ∧ part <+: writeFrame k.text ∧
    part ≠ writeFrame k.text

/-- On a connection stands what was sent there, and at most the message that is under way, and a
    part of a frame; if the connection rests, what was sent. -/
theorem client_standing [Abi] {s : Split State Act Mover ConnId UInt8} {c : ConnId}
    (h : ReachWhen (split supplied writers) (fun s e => ¬ TornOn c s e) s) :
    ∃ js part more, Standing s c js part ∧ js.map Json.reparse = sentOn c s.base ++ more ∧
      (more = [] ∨ ∃ body, UnderWay s.base c body ∧ more = [body.reparse]) ∧
      (Rests s c → more = []) := by
  obtain ⟨fs, part, hst⟩ := logged logs exclusive.restrict h
  obtain ⟨js, hjs, rfl, hsent⟩ := spelled_messages hst.log
  obtain ⟨k, hk, hpart, hway⟩ := part_message (held_reach exclusive.restrict h) (reach_base h) hst.cut
  by_cases hall : part = writeFrame k.text
  · refine ⟨js ++ [k], [], [k.reparse], ⟨?_, ?_, ?_⟩, ?_, Or.inr ⟨k, hway hall, rfl⟩, ?_⟩
    · exact fun j hj => (List.mem_append.mp hj).elim (hjs j) (List.forall_mem_singleton.mpr hk j)
    · rw [hst.out, hall, List.map_append, List.flatten_append, List.map_singleton,
        List.flatten_singleton, List.append_nil]
    · exact ⟨k, hk, List.nil_prefix, (writeFrame_ne_nil _).symm⟩
    · rw [List.map_append, List.map_singleton, hsent]
    · rintro ⟨hopen, hidle⟩
      exact absurd ((hst.idle hopen hidle).symm.trans hall) (writeFrame_ne_nil _).symm
  · refine ⟨js, part, [], ⟨hjs, hst.out, k, hk, hpart, hall⟩, ?_, Or.inl rfl, fun _ => rfl⟩
    rw [hsent, List.append_nil]

/-- The peer reads these messages, in any pieces. -/
theorem Standing.read [Abi] {s : Split State Act Mover ConnId UInt8} {c : ConnId} {js : List Json}
    {part : List UInt8} (h : Standing s c js part) (sizes : Nat → Nat) (n : Nat) :
    messages n ⟨(s.wires c).out, sizes⟩ = ((js.map Json.reparse).map .ok).take n := by
  obtain ⟨k, hk, hpart, hne⟩ := h.cut
  rw [h.out, messages_sent h.sendable hk hpart, if_neg hne, List.append_nil, List.map_map]
  rfl

/-! ## A session -/

/-- A message without `method` is no notification. -/
def isReply (m : Json) : Bool := (m.getObjectItemCaseSensitive (ascii "method")).isNone

/-- Whether a frame is to be replied to. -/
def asks (f : Inbound) : Bool := (Exchange.mk f none).owes

/-- The reply to a frame, as the peer reads it: the parse error, or one of result and error with
    the id that the request has. -/
def Replied : Inbound → Json → Prop
  | .eof, _ => False
  | .junk, r => IsParseError r
  | .msg j, r => r.membersNamed (ascii "id") = ((idOf j).map Json.reparse).toList ∧
      (r.membersNamed (ascii "result")).length + (r.membersNamed (ascii "error")).length = 1

/-- What the serve loop of connection `c` has read are the frames of `src`. -/
def Fed [Abi] (c : ConnId) (src : Source UInt8) (tr : List (State × Act)) : Prop :=
  (exchanges c tr).map Exchange.frame = inbounds (exchanges c tr).length src

theorem isReply_reparse (j : Json) : isReply j.reparse = isReply j := by
  unfold isReply
  rw [Json.getObjectItem_reparse, Option.isNone_map]

theorem BodyFor.isReply {e : Exchange} {body : Json} (h : BodyFor e body) :
    isReply body.reparse = true := by
  rw [isReply_reparse]
  cases h with
  | junk => rfl
  | error hid ho => rfl
  | result hid hm => rfl
  | call hid hm => rfl

theorem BodyFor.replied {e : Exchange} {body : Json} (h : BodyFor e body) :
    Replied e.frame body.reparse := by
  cases h with
  | junk => exact parseError_reparse
  | @error j id o code message hid ho =>
      obtain ⟨hrid, hres, herr⟩ := error_reparse (some id) code message
      refine ⟨hrid.trans (by rw [hid]), ?_⟩
      rw [hres, herr]
      rfl
  | @result j id res hid hm =>
      obtain ⟨hrid, hres, herr⟩ := result_reparse id res
      refine ⟨hrid.trans (by rw [hid]; rfl), ?_⟩
      rw [hres, herr]
      rfl
  | @call j id inner printed hid hm =>
      obtain ⟨hrid, hres, herr⟩ := result_reparse id (callResult printed inner)
      refine ⟨hrid.trans (by rw [hid]; rfl), ?_⟩
      rw [hres, herr]
      rfl

/-- Every notification that was sent says that the tools have changed. -/
theorem sent_changed {s : State} (h : Reach server s) :
    ∀ f ∈ s.sent, f.kind = .changed → f.body = listChanged.reparse := by
  refine h.invariant_of (I := fun s => ∀ f ∈ s.sent, f.kind = .changed →
    f.body = listChanged.reparse) (fun s hs => marking_reach hs) ?_ ?_
  · rintro s ⟨printText, r, rfl⟩ f hf
    exact absurd hf List.not_mem_nil
  · intro s a s' _ hm hs hst f hf hkind
    cases (show Step s a s' from hst) with
    | @notifyWrite t cl k ok ht hk hok =>
        rcases List.mem_append.mp hf with hf | hf
        · exact hs f hf hkind
        · unfold frameIf at hf
          split at hf
          · rw [List.mem_singleton.mp hf]
          · exact absurd hf List.not_mem_nil
    | @write k cl kind body ok hk hp hok =>
        rcases List.mem_append.mp hf with hf | hf
        · exact hs f hf hkind
        · unfold frameIf at hf
          split at hf
          · rw [List.mem_singleton.mp hf] at hkind
            exact absurd hkind (hm.quiet k cl kind body hk (Or.inr hp))
          · exact absurd hf List.not_mem_nil
    | _ => exact hs f hf hkind

/-- What was sent, notifications aside, are the replies. -/
theorem sentOn_replies {s : State} (h : Reach server s) {c : ConnId}
    (hrs : ∀ r ∈ replies c s, isReply r = true) :
    (sentOn c s).filter isReply = replies c s ∧
      ∀ m ∈ sentOn c s, isReply m = false → m = listChanged := by
  have hchanged := sent_changed h
  have hiff : ∀ f ∈ s.sent, f.conn = c → (isReply f.body = true ↔ f.kind ≠ .changed) := by
    intro f hf hc
    constructor
    · intro hr hk
      rw [hchanged f hf hk, isReply_reparse] at hr
      exact absurd hr (by decide)
    · exact fun hk => hrs _ (List.mem_map.mpr ⟨f, List.mem_filter.mpr ⟨hf, by simp [hc, hk]⟩, rfl⟩)
  constructor
  · unfold sentOn replies
    rw [List.filter_map, List.filter_filter]
    refine congrArg (List.map SentFrame.body) (List.filter_congr fun f hf => ?_)
    rw [Bool.eq_iff_iff, Bool.and_eq_true, decide_eq_true_iff, decide_eq_true_iff]
    exact ⟨fun h => ⟨h.2, (hiff f hf h.2).mp h.1⟩, fun h => ⟨(hiff f hf h.1).mpr h.2, h.1⟩⟩
  · intro m hm hr
    obtain ⟨f, hf, rfl⟩ := List.mem_map.mp hm
    obtain ⟨hf, hc⟩ := List.mem_filter.mp hf
    by_cases hk : f.kind = .changed
    · rw [hchanged f hf hk]
      rfl
    · rw [(hiff f hf (of_decide_eq_true hc)).mpr hk] at hr
      cases hr

theorem owed_frames (c : ConnId) (tr : List (State × Act)) :
    (owed c tr).map Exchange.frame = ((exchanges c tr).map Exchange.frame).filter asks := by
  rw [List.filter_map]
  rfl

theorem wrote_replied {es : List Exchange} {rs : List Json} (h : List.Forall₂ Wrote es rs) :
    List.Forall₂ Replied (es.map Exchange.frame) rs := by
  rw [List.forall₂_map_left_iff]
  refine h.imp ?_
  rintro e r ⟨body, hbody, rfl⟩
  exact hbody.replied

theorem wrote_isReply {es : List Exchange} {rs : List Json} (h : List.Forall₂ Wrote es rs) :
    ∀ r ∈ rs, isReply r = true := by
  induction h with
  | nil => exact List.forall_mem_nil _
  | cons hr _ ih =>
      obtain ⟨body, hbody, rfl⟩ := hr
      exact List.forall_mem_cons.mpr ⟨hbody.isReply, ih⟩

/-- The replies, with one that is under way, are those to the frames read. -/
theorem InStep.wrote {c : ConnId} {tr : List (State × Act)} {s : State} {more : List Json}
    (h : InStep c (exchanges c tr) s) (hs : Reach server s)
    (hmore : more = [] ∨ ∃ body, UnderWay s c body ∧ more = [body.reparse]) :
    (∀ r ∈ replies c s, isReply r = true) ∧
      (∀ m ∈ more, isReply m = false → m = listChanged) ∧
      (¬ AtWork s c → (owed c tr).length = (replies c s).length) ∧
      List.Forall₂ Wrote ((owed c tr).take (replies c s ++ more.filter isReply).length)
        (replies c s ++ more.filter isReply) := by
  cases h with
  | idle hpc hrs =>
      -- what is under way is a notification
      have hnone : ∀ m ∈ more, m = listChanged := by
        rcases hmore with rfl | ⟨body, ⟨rfl, -⟩ | ⟨kind, hat⟩, rfl⟩
        · exact List.forall_mem_nil _
        · exact List.forall_mem_singleton.mpr rfl
        · rcases hpc _ hat with he | he
          · cases he
          · cases he
      have hfilter : more.filter isReply = [] := List.filter_eq_nil_iff.mpr fun m hm => by
        rw [hnone m hm]
        decide
      have hlen : (owed c tr).length = (replies c s).length := hrs.length_eq
      rw [hfilter, List.append_nil, ← hlen, List.take_length]
      exact ⟨wrote_isReply hrs, fun m hm _ => hnone m hm, fun _ => rfl, hrs⟩
  | busy es e pc hes howes hpc hw hrs =>
      have howed : owed c tr = es.filter Exchange.owes ++ [e] := by
        rw [owed, hes, List.filter_append, List.filter_cons_of_pos howes, List.filter_nil]
      have hlen : (es.filter Exchange.owes).length = (replies c s).length := hrs.length_eq
      have hbusy : ¬ AtWork s c → (owed c tr).length = (replies c s).length := fun hidle =>
        absurd ⟨pc, hpc, hw.busy⟩ hidle
      rcases hmore with rfl | ⟨body, ⟨rfl, -⟩ | ⟨kind, hat⟩, rfl⟩
      · refine ⟨wrote_isReply hrs, List.forall_mem_nil _, hbusy, ?_⟩
        rw [List.filter_nil, List.append_nil, howed, List.take_left' hlen]
        exact hrs
      · refine ⟨wrote_isReply hrs, fun m hm _ => List.mem_singleton.mp hm, hbusy, ?_⟩
        rw [List.filter_cons_of_neg (by decide), List.filter_nil, List.append_nil, howed,
          List.take_left' hlen]
        exact hrs
      · rw [at_unique hs hat hpc] at hw
        cases hw with
        | write hbody hkind =>
            refine ⟨wrote_isReply hrs, fun m hm hr => ?_, hbusy, ?_⟩
            · rw [List.mem_singleton.mp hm, hbody.isReply] at hr
              cases hr
            · rw [List.filter_cons_of_pos hbody.isReply, List.filter_nil, howed,
                List.take_of_length_le (by simp [hlen])]
              exact List.rel_append hrs (.cons ⟨body, hbody, rfl⟩ .nil)

/-- Where no reply on the connection fails, none is torn there. -/
theorem untorn [Abi] {s₀ s : Split State Act Mover ConnId UInt8}
    {tr : List (Split State Act Mover ConnId UInt8 × SplitAct Act Mover ConnId)} {c : ConnId}
    (hi : (split supplied writers).init s₀) (hrun : Run (split supplied writers) s₀ tr s)
    (hok : Meets (WritesOk c) (baseTrace writers tr)) : Meets (fun s e => ¬ TornOn c s e) tr := by
  rintro ⟨u, e⟩ hp htorn
  obtain ⟨tr₁, tr₂, rfl⟩ := List.append_of_mem hp
  have hu : Reach (split supplied writers) u := ⟨s₀, tr₁, hi, hrun.split.1, fun _ _ => trivial⟩
  cases e with
  | fail t =>
      obtain ⟨j, hj, hc, hbounded, -, -⟩ := htorn
      have hw : u.base.writes j.act = some j.write :=
        ((held_reach exclusive.restrict hu).job t j hj).2.1
      have hstep := hok (u.base, j.act.settle false) (List.mem_filterMap.mpr ⟨_, hp, by
        change ((u.jobs t).map fun j => j.act.settle false).map _ = _
        rw [hj]
        rfl⟩)
      rcases writes_shape hw with ⟨t, ok, k, cl, -, -, -, he⟩ | ⟨k, ok, cl, kind, body, ha, hk, -, he⟩
      · rw [he] at hbounded
        cases hbounded
      · rw [he] at hc
        rw [ha] at hstep
        exact Bool.false_ne_true (hstep (by rw [hk, ← hc]; rfl))
  | _ => exact htorn

/-- The messages that stand on a connection answer the frames that were read there. -/
structure Told (s : Split State Act Mover ConnId UInt8) (c : ConnId) (frames : List Inbound)
    (ms : List Json) : Prop where
  notes : ∀ m ∈ ms, isReply m = false → m = listChanged
  replies : List.Forall₂ Replied ((frames.filter asks).take (ms.filter isReply).length)
    (ms.filter isReply)
  all : Rests s c → ¬ AtWork s.base c → (ms.filter isReply).length = (frames.filter asks).length

theorem standing_told [Abi] {s₀ s : Split State Act Mover ConnId UInt8}
    {tr : List (Split State Act Mover ConnId UInt8 × SplitAct Act Mover ConnId)} {c : ConnId}
    {src : Source UInt8} (hi : (split supplied writers).init s₀)
    (hrun : Run (split supplied writers) s₀ tr s)
    (hok : Meets (WritesOk c) (baseTrace writers tr)) (hfed : Fed c src (baseTrace writers tr)) :
    ∃ js part, Standing s c js part ∧
      Told s c (inbounds (exchanges c (baseTrace writers tr)).length src) (js.map Json.reparse) := by
  have hbase := (run_baseTrace hrun).unrestrict.1
  have hbaseInit : server.init s₀.base := by
    obtain ⟨base, room, hbi, rfl⟩ := hi
    exact hbi.1
  have hreach : Reach server s.base := ⟨_, _, hbaseInit, hbase, fun _ _ => trivial⟩
  obtain ⟨js, part, more, hst, hjs, hmore, hrest⟩ :=
    client_standing ⟨s₀, tr, hi, hrun, untorn hi hrun hok⟩
  obtain ⟨hreply, hnote, hidle, hwrote⟩ := (inStep_run hbaseInit hbase hok).wrote hreach hmore
  obtain ⟨hsent, hnotes⟩ := sentOn_replies hreach hreply
  have hframes : (owed c (baseTrace writers tr)).map Exchange.frame =
      (inbounds (exchanges c (baseTrace writers tr)).length src).filter asks := by
    rw [owed_frames, hfed]
  have hrs : (js.map Json.reparse).filter isReply = replies c s.base ++ more.filter isReply := by
    rw [hjs, List.filter_append, hsent]
  refine ⟨js, part, hst, ?_, ?_, ?_⟩
  · intro m hm
    rw [hjs] at hm
    rcases List.mem_append.mp hm with hm | hm
    · exact hnotes m hm
    · exact hnote m hm
  · rw [hrs, ← hframes, ← List.map_take]
    exact wrote_replied hwrote
  · intro hr hwork
    rw [hrs, hrest hr, List.filter_nil, List.append_nil, ← hframes, List.length_map, hidle hwork]

/-- A client of the server that writes any bytes at all, and reads messages in pieces of any sizes.
    What it has read at any time, notifications aside, are the replies to the frames it has sent,
    one each to those that ask for one, in their order and with their ids; on a connection that
    rests, while the serve loop is not at work, those to all frames read. -/
theorem session [Abi] {s₀ s : Split State Act Mover ConnId UInt8}
    {tr : List (Split State Act Mover ConnId UInt8 × SplitAct Act Mover ConnId)} {c : ConnId}
    {src : Source UInt8} (hi : (split supplied writers).init s₀)
    (hrun : Run (split supplied writers) s₀ tr s)
    (hok : Meets (WritesOk c) (baseTrace writers tr)) (hfed : Fed c src (baseTrace writers tr)) :
    ∃ ms : List Json,
      (∀ (sizes : Nat → Nat) (n : Nat),
        messages n ⟨(s.wires c).out, sizes⟩ = (ms.map .ok).take n) ∧
      Told s c (inbounds (exchanges c (baseTrace writers tr)).length src) ms := by
  obtain ⟨js, part, hst, htold⟩ := standing_told hi hrun hok hfed
  exact ⟨_, hst.read, htold⟩

/-- The client pings. -/
def pingSession : List (SplitAct Act Mover ConnId) :=
  [.plain (.accept true), .plain (.recv 0 (.msg (request 1 "ping"))), .plain (.lockWrite 0),
    .begin (.write 0 true), .put (.serve 0) 22, .next (.serve 0), .put (.serve 0) 36,
    .finish (.serve 0)]

/-- A server without tools. -/
def printer : Split State Act Mover ConnId UInt8 := Split.init (start Json.text .empty) fun _ => 64

/-- What the environment does there. -/
def PingStep (s : State) : Act → Prop
  | .accept _ | .write _ _ => True
  | .recv _ (.msg j) => j = request 1 "ping"
  | .lockWrite k => ∀ cl ∈ s.clients k, ∀ body ∈ cl.pc.due, body.text.length ≤ 36
  | _ => False

instance (s : State) : (a : Act) → Decidable (PingStep s a)
  | .accept _ | .write _ _ => .isTrue trivial
  | .recv _ (.msg j) => inferInstanceAs (Decidable (j = request 1 "ping"))
  | .lockWrite k => inferInstanceAs
      (Decidable (∀ cl ∈ s.clients k, ∀ body ∈ cl.pc.due, body.text.length ≤ 36))
  | .recv _ .eof | .recv _ .junk | .change _ _ | .notify _ | .lockConns _ | .scan _
  | .notifyWrite _ _ | .dispatch _ | .handler _ _ | .unwind _ => .isFalse id

theorem sendable_ping : Sendable maxFrameBytes (request 1 "ping") := by
  have hid : Carried 999 (Json.ofNat 1) := by
    rw [show Json.ofNat 1 = .num (.fin ((1 : ℤ) : ℚ)) by decide +kernel]
    exact carried_int (by decide)
  exact ⟨(((members_nil.cons "method" (by decide) (carried_text (by decide))).cons "id" (by decide)
    hid).cons "jsonrpc" (by decide) (carried_text (by decide))).obj, by decide +kernel⟩

theorem inbound_ping [Abi] (sizes : Nat → Nat) :
    inbound ⟨connWriteFrame (request 1 "ping").text ++ [], sizes⟩ =
      (.msg (request 1 "ping"), ⟨[], sizes⟩) := by
  have hback : (request 1 "ping").reparse = request 1 "ping" := by decide +kernel
  rw [inbound_frame (by decide +kernel) sendable_ping.fits, received_text sendable_ping.carried,
    hback]

theorem supplied_ping [Abi] {s : State} {a : Act} (h : PingStep s a) : Supplied s a := by
  cases a with
  | recv k f =>
      cases f with
      | msg j =>
          refine ⟨⟨connWriteFrame (request 1 "ping").text ++ [], fun _ => 64⟩, ?_⟩
          rw [inbound_ping, show j = request 1 "ping" from h]
      | _ => exact h.elim
  | lockWrite k => exact fun cl hcl body hb => Nat.le_trans (h cl hcl body hb) (by decide)
  | accept started => trivial
  | write k ok => trivial
  | _ => exact h.elim

/-- The frame of the ping. -/
def pingSource : Source UInt8 := ⟨connWriteFrame (request 1 "ping").text ++ [], fun _ => 64⟩

/-- The frame of its reply. -/
def pingReply : CStr := ascii "\x7b\"jsonrpc\":\"2.0\",\"id\":1,\"result\":\x7b\x7d\x7d"

open Lp64 in
/-- The server reads the ping, and replies. -/
theorem pinged : ∃ s tr, (split supplied writers).init printer ∧
    Run (split supplied writers) printer tr s ∧ Meets (WritesOk 0) (baseTrace writers tr) ∧
    Fed 0 pingSource (baseTrace writers tr) ∧
    inbounds (exchanges 0 (baseTrace writers tr)).length pingSource = [.msg (request 1 "ping")] ∧
    (s.wires 0).out = writeFrame pingReply ∧ (sentOn 0 s.base).length = 1 := by
  have hrun : ((follow (Split.next State.next writers) printer pingSession).map fun s =>
      decide ((s.wires 0).out = writeFrame pingReply ∧ (sentOn 0 s.base).length = 1)) =
        some true := by
    decide +kernel
  obtain ⟨s, hs, hd⟩ := Option.map_eq_some_iff.mp hrun
  have htr := run_of_follow (M := split server writers)
    (fun _ _ _ h => Split.next_step (fun _ _ _ => next_step) h) _ hs
  have hsup : Meets PingStep (baseTrace writers
      (record (Split.next State.next writers) printer pingSession)) := by
    decide +kernel
  have hread : (exchanges 0 (baseTrace writers
      (record (Split.next State.next writers) printer pingSession))).map Exchange.frame =
        [.msg (request 1 "ping")] := by
    decide +kernel
  have hlen : (exchanges 0 (baseTrace writers
      (record (Split.next State.next writers) printer pingSession))).length = 1 := by
    rw [← List.length_map Exchange.frame, hread]
    rfl
  have hone : inbounds 1 pingSource = [.msg (request 1 "ping")] := by
    unfold inbounds pingSource
    rw [inbound_ping]
    rfl
  have hprints : Prints printer.base := ⟨rfl, List.forall_mem_nil _⟩
  refine ⟨s, _, ⟨_, _, ⟨⟨_, _, rfl⟩, hprints⟩, rfl⟩,
    run_restrict htr (hsup.mono fun _ _ => supplied_ping), by decide +kernel, ?_, ?_,
    of_decide_eq_true hd⟩
  · unfold Fed
    rw [hread, hlen, hone]
  · rw [hlen, hone]

open Lp64 in
/-- The client reads one reply, to its ping. -/
theorem session_ping : ∃ s ms, (∀ (sizes : Nat → Nat) (n : Nat),
      messages n ⟨(s.wires 0).out, sizes⟩ = (ms.map .ok).take n) ∧
    Told s 0 [.msg (request 1 "ping")] ms ∧ (sentOn 0 s.base).length = 1 := by
  obtain ⟨s, tr, hi, hrun, hok, hfed, hread, -, hone⟩ := pinged
  obtain ⟨ms, hms, htold⟩ := session hi hrun hok hfed
  rw [hread] at htold
  exact ⟨s, ms, hms, htold, hone⟩

/-- What the peer reads on a connection, at any time and in any pieces, is what was sent there, and
    after that at most the message that is under way; on a connection that rests, it is what
    was sent. -/
theorem client_reads [Abi] {s : Split State Act Mover ConnId UInt8} {c : ConnId}
    (h : ReachWhen (split supplied writers) (fun s e => ¬ TornOn c s e) s) :
    ∃ more : List Json, (more = [] ∨ ∃ body, UnderWay s.base c body ∧ more = [body.reparse]) ∧
      (Rests s c → more = []) ∧
      ∀ (sizes : Nat → Nat) (n : Nat), messages n ⟨(s.wires c).out, sizes⟩ =
        ((sentOn c s.base ++ more).map .ok).take n := by
  obtain ⟨js, part, more, hst, hjs, hmore, hrest⟩ := client_standing h
  refine ⟨more, hmore, hrest, fun sizes n => ?_⟩
  rw [hst.read, hjs]

open Lp64 in
/-- What the client reads is what was sent. -/
theorem client_reads_ping : ∃ (s : Split State Act Mover ConnId UInt8) (more : List Json),
    (more = [] ∨ ∃ body, UnderWay s.base 0 body ∧ more = [body.reparse]) ∧
      (sentOn 0 s.base).length = 1 ∧ ∀ (sizes : Nat → Nat) (n : Nat),
        messages n ⟨(s.wires 0).out, sizes⟩ = ((sentOn 0 s.base ++ more).map .ok).take n := by
  obtain ⟨s, tr, hi, hrun, hok, -, -, -, hone⟩ := pinged
  obtain ⟨more, hmore, -, hread⟩ := client_reads ⟨_, _, hi, hrun, untorn hi hrun hok⟩
  exact ⟨s, more, hmore, hone, hread⟩

end DisplayxrMcp.Server
