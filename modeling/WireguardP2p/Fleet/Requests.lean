import WireguardP2p.Agent.KeyOrder
import WireguardP2p.Fleet.Server

/-! `p2p_agent.py`: what the server answers, and what the answer says about the agent. A request answered with a
    client error left it as it was; a notification that arrives as the coordinator sent it is taken, and
    whenever its thread gets to handle it, its handler does what it would do on the payload itself. -/

namespace Server
open Ipaddress Python Notification Raising
open Agent (Section Slot Offer OfferCalls Removal RemoveCalls Outcome)

/-! ### Errors of the handlers -/

/-- The error of a command or of `save_state`. -/
def FromCall (e : Raised) : Prop := e = Agent.wgError ∨ e = .osError

section Errors
variable {α : Type}

/-- The program raises nothing but errors of its calls. -/
abbrev CallsOnly (p : Section α) : Prop := Raises FromCall p

theorem raises_wgSet (o : Outcome) (c : Agent.Command) : CallsOnly (Agent.wgSet o c) := fun _ =>
  (Agent.wp_wgSet o c).mpr ⟨fun _ => trivial, fun _ => .inl rfl, fun _ => .inl rfl⟩

theorem raises_saveState (ok : Bool) : CallsOnly (Agent.saveState ok) := fun _ =>
  (Agent.wp_saveState ok).mpr ⟨fun _ => trivial, fun _ => .inr rfl⟩

theorem raises_entry : CallsOnly Agent.entry := fun _ => trivial

theorem raises_peer : CallsOnly Agent.peer := fun _ => trivial

theorem raises_update (f : Agent.PeerState → Agent.PeerState) : CallsOnly (Agent.update f) := Raises.modify _

theorem raises_renew : CallsOnly Agent.renew := Raises.modify _

theorem raises_removeIfPresent (o : Outcome) : CallsOnly (Agent.removeIfPresent o) :=
  raises_peer.bind fun _ => .ite (raises_wgSet o _) (.pure ())

theorem raises_retire : CallsOnly Agent.retire := raises_renew.bind fun _ => raises_update _

theorem raises_createEntry (o : Offer) : CallsOnly (Agent.createEntry o) := Raises.modify _

theorem raises_replaceEntry (o : Offer) (calls : OfferCalls) : CallsOnly (Agent.replaceEntry o calls) := by
  refine raises_entry.bind fun e => ?_
  cases e with
  | none => exact raises_createEntry o
  | some s =>
    refine .ite (raises_retire.bind fun _ => (raises_removeIfPresent _).bind fun _ => raises_createEntry o) ?_
    refine .ite (raises_peer.bind fun p => raises_retire.bind fun _ => ?_) (.pure _)
    exact .ite (raises_peer.bind fun p => raises_update _)
      ((raises_removeIfPresent _).bind fun _ => raises_createEntry o)

theorem raises_followSignature (o : Offer) (calls : OfferCalls) : CallsOnly (Agent.followSignature o calls) := by
  refine raises_entry.bind fun e => ?_
  cases e with
  | none => exact .pure _
  | some s =>
    refine .ite ((raises_update _).bind fun _ => raises_renew.bind fun _ => (raises_update _).bind fun _ =>
      raises_peer.bind fun p => ?_) (.pure _)
    exact .ite ((raises_update _).bind fun _ => raises_saveState _)
      ((raises_removeIfPresent _).bind fun _ => raises_update _)

theorem raises_followDirect (o : Offer) (calls : OfferCalls) : CallsOnly (Agent.followDirect o calls) := by
  refine raises_peer.bind fun p => .ite (.ite ?_ ?_) (.pure _)
  · exact (raises_update _).bind fun _ => raises_saveState _
  · exact (raises_wgSet _ _).bind fun _ => raises_renew.bind fun _ => raises_update _

theorem raises_launchIfDue (o : Offer) : CallsOnly (Agent.launchIfDue o) := by
  refine raises_peer.bind fun p => raises_entry.bind fun e => ?_
  cases e with
  | none => exact .pure _
  | some s =>
    refine .ite (.bind ?_ fun _ => .pure _) (.pure _)
    exact raises_renew.bind fun _ => (raises_update _).bind fun _ => raises_entry.bind fun _ => .pure _

theorem raises_acceptOffer (o : Offer) (calls : OfferCalls) : CallsOnly (Agent.acceptOffer o calls) := by
  refine .bind ?_ fun launch => (raises_saveState _).bind fun _ => .pure _
  exact (raises_replaceEntry o calls).bind fun _ => (raises_update _).bind fun _ =>
    (raises_followSignature o calls).bind fun _ => (raises_followDirect o calls).bind fun _ => raises_launchIfDue o

/-- An error of `handle_offer` under STATE_LOCK is one of a call, or comes before any change. -/
theorem offerSection_errors (o : Offer) (calls : OfferCalls) (sl : Slot) :
    (Agent.offerSection o calls).wp (fun _ _ => True) (fun e t => FromCall e ∨ t = sl) sl := by
  rw [Agent.offerSection, wp_bind, Agent.wp_queryPeers]
  refine ⟨fun _ => ?_, fun e _ => .inr rfl⟩
  rw [wp_bind, Agent.wp_entry]
  cases Agent.sessionCheck sl.entry o with
  | stale => exact trivial
  | startChanged => exact .inr rfl
  | current =>
    rw [wp_bind]
    exact wp_mono (raises_acceptOffer o calls sl) (fun _ _ _ => trivial) fun _ _ h => .inl h

/-- The same of `handle_remove`. -/
theorem removeSection_errors (r : Removal) (now : Agent.Time) (calls : RemoveCalls) (sl : Slot) :
    (Agent.removeSection r now calls).wp (fun _ _ => True) (fun e t => FromCall e ∨ t = sl) sl := by
  rw [Agent.removeSection, wp_bind, Agent.wp_entry]
  cases sl.entry with
  | none => exact trivial
  | some s =>
    dsimp only
    rw [wp_ite]
    refine ⟨fun _ => trivial, fun _ => ?_⟩
    rw [wp_bind, Agent.wp_queryPeers]
    refine ⟨fun _ => ?_, fun e _ => .inr rfl⟩
    refine wp_mono (Q := fun _ _ => True) (E := fun e _ => FromCall e) ?_ (fun _ _ _ => trivial) fun _ _ h => .inl h
    refine (raises_peer.bind fun p => .ite ?_ ?_ : CallsOnly _) sl
    · exact (raises_update _).bind fun _ => (raises_saveState _).bind fun _ => .pure _
    · exact (raises_removeIfPresent _).bind fun _ => raises_retire.bind fun _ =>
        (Raises.modify _).bind fun _ => (raises_saveState _).bind fun _ => .pure _

end Errors

/-! ### Answers -/

/-- The status of an answer. -/
inductive Status
  | ok
  | badRequest
  | forbidden
  | notFound
  | unavailable
  deriving DecidableEq

/-- The `except` clauses of `do_POST`; `denied` says that the `OSError` is a `PermissionError`. -/
def statusOf (denied : Bool) : Raised → Status
  | .permissionError _ => .forbidden
  | .keyError _ => .badRequest
  | .typeError => .badRequest
  | .valueError _ => .badRequest
  | .builtinValueError => .badRequest
  | .osError => if denied then .forbidden else .unavailable
  | _ => .unavailable

/-- The status of an offer. An accepted one is answered with a description of the node, which may raise `reply`. -/
def offerStatus (denied : Bool) (reply : Option Raised) : Except Raised Agent.OfferReply → Status
  | .error e => statusOf denied e
  | .ok .staleSession => .ok
  | .ok (.accepted _) => (reply.map (statusOf denied)).getD .ok

def removeStatus (denied : Bool) : Except Raised Agent.RemoveReply → Status
  | .error e => statusOf denied e
  | .ok _ => .ok

/-- The answer that is sent with a step, if one is. -/
def Node.answer (hexdigest : Bytes → Text) (w : Node) (denied : Bool) (reply : Option Raised) : Label → Option Status
  | .request r now =>
    match handlerOf r.path with
    | none => some .notFound
    | some _ =>
      match ((readSignedJson hexdigest r now).run w.net.seen).1 with
      | .error e => some (statusOf denied e)
      | .ok _ => none
  | .offer i env calls =>
    match w.taken[i]? with
    | some t => some (offerStatus denied reply (w.agent.offer env t.data .responder calls).1)
    | none => none
  | .remove i listenAddress now calls =>
    match w.taken[i]? with
    | some t => some (removeStatus denied (w.agent.remove listenAddress t.data now calls).1)
    | none => none
  | _ => none

/-- A client error: the request is at fault, and no call of the agent was denied. -/
def Status.IsClientError (s : Status) (denied : Bool) : Prop :=
  s = .notFound ∨ s = .badRequest ∨ (s = .forbidden ∧ denied = false)

theorem not_clientError_of_call {e : Raised} {denied : Bool} (h : FromCall e) :
    ¬ (statusOf denied e).IsClientError denied := by
  rcases h with rfl | rfl
  · exact fun hs => by rcases hs with hs | hs | ⟨hs, -⟩ <;> cases hs
  · cases denied with
    | false => exact fun hs => by rcases hs with hs | hs | ⟨hs, -⟩ <;> cases hs
    | true => exact fun hs => by rcases hs with hs | hs | ⟨-, hs⟩ <;> cases hs

section Refused
variable {a : Agent.World}

/-- A handler that ends in a client error leaves the agent as it was. -/
theorem onKey_refused {α : Type} {k : Agent.PublicKey} {p : Section α} {sh sh' : Agent.Shared} {e : Raised}
    {denied : Bool} (hp : p.wp (fun _ _ => True) (fun e t => FromCall e ∨ t = sh.slot k) (sh.slot k))
    (hrun : (Agent.onKey k p).run sh = (.error e, sh')) (hs : (statusOf denied e).IsClientError denied) : sh' = sh := by
  have hwp : (Agent.onKey k p).wp (fun _ _ => True) (fun e t => FromCall e ∨ t = sh) sh := by
    rw [Agent.wp_onKey]
    refine wp_mono hp (fun _ _ _ => trivial) fun e t h => h.imp_right fun ht => ?_
    rw [ht, Agent.Shared.put_slot]
  exact (wp_error hwp hrun).resolve_left fun hcall => not_clientError_of_call hcall hs

theorem offer_refused {env : Agent.OfferEnv} {data : Json} {controller : Agent.Controller} {calls : OfferCalls}
    {denied : Bool} {reply : Option Raised} (hreply : ∀ e ∈ reply, ¬ (statusOf denied e).IsClientError denied)
    (hs : (offerStatus denied reply (a.offer env data controller calls).1).IsClientError denied) :
    (a.offer env data controller calls).2 = a := by
  have hok : ¬ Status.ok.IsClientError denied := fun h => by rcases h with h | h | ⟨h, -⟩ <;> cases h
  unfold Agent.World.offer at hs ⊢
  cases ho : Agent.readOffer env data controller with
  | error e => rfl
  | ok o =>
    rw [ho] at hs
    dsimp only at hs ⊢
    rcases hrun : (Agent.onKey o.key (Agent.offerSection o calls)).run a.shared with ⟨e | answer, sh⟩
    · rw [hrun] at hs
      have hsh := onKey_refused (offerSection_errors o calls _) hrun hs
      dsimp only
      rw [hsh]
    · rw [hrun] at hs
      rcases reply with _ | e
      · cases answer <;> exact absurd hs hok
      · cases answer with
        | staleSession => exact absurd hs hok
        | accepted launch => exact absurd hs (hreply e rfl)

theorem remove_refused {address : Text} {data : Json} {now : Agent.Time} {calls : RemoveCalls} {denied : Bool}
    (hs : (removeStatus denied (a.remove address data now calls).1).IsClientError denied) :
    (a.remove address data now calls).2 = a := by
  unfold Agent.World.remove at hs ⊢
  cases hr : Agent.readRemoval address data with
  | error e => rfl
  | ok r =>
    rw [hr] at hs
    dsimp only at hs ⊢
    rcases hrun : (Agent.onKey r.key (Agent.removeSection r now calls)).run a.shared with ⟨e | reply, sh⟩
    · rw [hrun] at hs
      have hsh := onKey_refused (removeSection_errors r now calls _) hrun hs
      dsimp only
      rw [hsh]
    · rw [hrun] at hs
      rcases hs with hs | hs | ⟨hs, -⟩ <;> cases hs

end Refused

/-! ### Delivery -/

/-- The request `signed_post` makes, with what else comes on the connection. -/
def Signed.request (s : Signed) (hexdigest : Bytes → Text) (rest : Bytes) (ended : Bool) : Request :=
  ⟨Agent.vpsAddress, s.path, some (reprInt s.body.length), some s.timestamp, some s.nonce,
    some (hexdigest s.payload), s.body ++ rest, ended⟩

section Delivery
variable {hexdigest : Bytes → Text} {w w' : Node}

/-- A printed value is not empty. -/
theorem encode_dumps_ne_nil (payload : Payload) : encode payload.1.dumps ≠ [] := by
  intro he
  have hnil : payload.1.dumps = [] := encode_injective (he.trans rfl)
  obtain ⟨c, t, htext, -⟩ := (Json.printable_sortKeys payload.1 payload.2).opens_print
  rw [Json.dumps, htext] at hnil
  cases hnil

/-- The body of a request as it was sent is read whole. -/
theorem body_request {s : Signed} {rest : Bytes} {ended : Bool} (hne : s.body ≠ [])
    (hsize : (s.body.length : ℤ) ≤ maxRequestSize) : (Signed.request s hexdigest rest ended).body = .ok s.body := by
  have hpos := List.length_pos_of_ne_nil hne
  have hdigits : (Numeral.text 10 s.body.length).length ≤ 4300 := by
    have hsmall : s.body.length < 10 ^ 5 := by
      unfold maxRequestSize at hsize
      omega
    have hlen := (Numeral.length_text_le (by norm_num) (by norm_num)).mpr hsmall
    omega
  have hsizeText : (Signed.request s hexdigest rest ended).size = .ok (s.body.length : ℤ) := by
    have hint : intText 10 (reprInt s.body.length) = some (s.body.length : ℤ) := by
      rw [reprInt_natCast, intText_text hdigits]
    unfold Request.size Signed.request
    rw [Option.getD_some, hint]
  have hread : (Signed.request s hexdigest rest ended).read s.body.length = .ok s.body := by
    unfold Request.read Signed.request
    dsimp only
    rw [if_pos (.inl (by rw [List.length_append]; omega)), List.take_left]
  unfold Request.body
  rw [if_neg (show ¬ (Signed.request s hexdigest rest ended).clientAddress ≠ Agent.vpsAddress from fun h => h rfl),
    hsizeText]
  change (if _ then _ else _) = _
  rw [if_neg (by omega), Int.toNat_natCast, hread]

/-- In its time, and with its nonce not among the recent ones, a notification that arrives as it was sent is taken. -/
theorem request_taken (hascii : Ascii hexdigest) {notice : Notice} {payload : Payload} {time : ℕ} {token : Token}
    {now : ℚ} {rest : Bytes} {ended : Bool} (htime : time < floatLimit) (hnow : |now - time| ≤ notificationMaxSkew)
    (hsize : ((encode payload.1.dumps).length : ℤ) ≤ maxRequestSize)
    (hnew : hexText token.1 ∉ (SeenCache.purge (now - nonceTtl) w.net.seen).keys) :
    w.request hexdigest (Signed.request (signedPost notice payload time token) hexdigest rest ended) now =
      { w with
        net := { w.net with
          seen := SeenCache.store maxSeenNonces (hexText token.1) now (SeenCache.purge (now - nonceTtl) w.net.seen)
          clock := now }
        taken := w.taken ++ [⟨notice, payload.1.sortKeys, false⟩] } := by
  have hbody : (Signed.request (signedPost notice payload time token) hexdigest rest ended).body =
      .ok (signedPost notice payload time token).body := body_request (encode_dumps_ne_nil payload) hsize
  have hpath : handlerOf (Signed.request (signedPost notice payload time token) hexdigest rest ended).path =
      some notice := handlerOf_path notice
  have hrun : (readSignedJson hexdigest (Signed.request (signedPost notice payload time token) hexdigest rest ended)
      now).run w.net.seen = (.ok payload.1.sortKeys, SeenCache.store maxSeenNonces (hexText token.1) now
        (SeenCache.purge (now - nonceTtl) w.net.seen)) := by
    rw [readSignedJson, hbody]
    exact verify_sent hascii notice payload htime token hnow hnew
  unfold Node.request
  rw [hpath, hrun]

/-- A request that waits for its handler goes on waiting through every step but its own. -/
theorem waits_step {i : ℕ} {t : Taken} {l : Label} (h : (machine hexdigest).step w l = some w')
    (hl : l.handles ≠ some i) (ht : w.taken[i]? = some t) : w'.taken[i]? = some t := by
  cases moved h with
  | post notice payload time token => exact ht
  | request r now _ hle hr =>
    cases hr with
    | refused | rejected => exact ht
    | taken notice body data hpath hbody hacc hdata =>
      exact List.getElem?_append_left (List.getElem?_eq_some_iff.mp ht).1 ▸ ht
  | own lab a hlab hnone ha => exact ht
  | handled l j u lab a hu hdone hlab hnotice hposts hhandles ha =>
    have hne : j ≠ i := fun hji => hl (hhandles.trans (congrArg some hji))
    exact (List.getElem?_set_ne hne).trans ht

theorem waits_run {i : ℕ} {t : Taken} {ls : List Label} : ∀ {w w' : Node}, (machine hexdigest).run w ls = some w' →
    (∀ l ∈ ls, l.handles ≠ some i) → w.taken[i]? = some t → w'.taken[i]? = some t := by
  induction ls with
  | nil =>
    intro w w' h _ ht
    obtain rfl := Option.some.inj h
    exact ht
  | cons l ls ih =>
    intro w w' h hl ht
    obtain ⟨v, hstep, hrest⟩ := ((machine hexdigest).run_cons).mp h
    exact ih hrest (fun l' hl' => hl l' (List.mem_cons_of_mem l hl'))
      (waits_step hstep (hl l List.mem_cons_self) ht)

/-- A handler does the same on the payload that was read back as on the payload itself. -/
theorem offer_sortKeys (a : Agent.World) (env : Agent.OfferEnv) (controller : Agent.Controller) (calls : OfferCalls)
    (payload : Payload) : a.offer env payload.1.sortKeys controller calls = a.offer env payload.1 controller calls := by
  unfold Agent.World.offer
  rw [Agent.readOffer_sortKeys env controller payload.2]

theorem remove_sortKeys (a : Agent.World) (address : Text) (now : Agent.Time) (calls : RemoveCalls)
    (payload : Payload) : a.remove address payload.1.sortKeys now calls = a.remove address payload.1 now calls := by
  unfold Agent.World.remove
  rw [Agent.readRemoval_sortKeys address payload.2]

theorem step_offer {i : ℕ} {data : Json} (ht : w.taken[i]? = some ⟨.offer, data, false⟩) (env : Agent.OfferEnv)
    (calls : OfferCalls) : ∃ w', (machine hexdigest).step w (.offer i env calls) = some w' ∧
      w'.agent = (w.agent.offer env data .responder calls).2 := by
  have hlab : w.agentLabel (.offer i env calls) = some (.offer env data .responder calls) := by
    unfold Node.agentLabel
    dsimp only
    rw [ht]
  refine ⟨{ w with agent := (w.agent.offer env data .responder calls).2, taken := w.finish i }, ?_, rfl⟩
  show ((w.agentLabel (.offer i env calls)).bind _) = _
  rw [hlab]
  rfl

/-- A step of `handle_offer`, seen from after it. -/
theorem stepped_offer {i : ℕ} {env : Agent.OfferEnv} {calls : OfferCalls}
    (h : (machine hexdigest).step w (.offer i env calls) = some w') :
    ∃ data, w.taken[i]? = some ⟨.offer, data, false⟩ ∧ w'.agent = (w.agent.offer env data .responder calls).2 := by
  obtain ⟨lab, hlab, hstep⟩ := Option.bind_eq_some_iff.mp (show ((w.agentLabel (.offer i env calls)).bind _) = _ from h)
  obtain ⟨a, ha, hstep⟩ := Option.bind_eq_some_iff.mp hstep
  obtain rfl := Option.some.inj hstep
  unfold Node.agentLabel at hlab
  dsimp only at hlab
  split at hlab <;> cases hlab
  rename_i data ht
  exact ⟨data, ht, (Option.some.inj ha).symm⟩

theorem stepped_remove {i : ℕ} {address : Text} {now : Agent.Time} {calls : RemoveCalls}
    (h : (machine hexdigest).step w (.remove i address now calls) = some w') :
    ∃ data, w.taken[i]? = some ⟨.remove, data, false⟩ ∧ w'.agent = (w.agent.remove address data now calls).2 := by
  obtain ⟨lab, hlab, hstep⟩ := Option.bind_eq_some_iff.mp
    (show ((w.agentLabel (.remove i address now calls)).bind _) = _ from h)
  obtain ⟨a, ha, hstep⟩ := Option.bind_eq_some_iff.mp hstep
  obtain rfl := Option.some.inj hstep
  unfold Node.agentLabel at hlab
  dsimp only at hlab
  split at hlab <;> cases hlab
  rename_i data ht
  exact ⟨data, ht, (Option.some.inj ha).symm⟩

theorem step_remove {i : ℕ} {data : Json} (ht : w.taken[i]? = some ⟨.remove, data, false⟩) (address : Text)
    (now : Agent.Time) (calls : RemoveCalls) : ∃ w', (machine hexdigest).step w (.remove i address now calls) = some w' ∧
      w'.agent = (w.agent.remove address data now calls).2 := by
  have hlab : w.agentLabel (.remove i address now calls) = some (.remove address data now calls) := by
    unfold Node.agentLabel
    dsimp only
    rw [ht]
  refine ⟨{ w with agent := (w.agent.remove address data now calls).2, taken := w.finish i }, ?_, rfl⟩
  show ((w.agentLabel (.remove i address now calls)).bind _) = _
  rw [hlab]
  rfl

end Delivery

/-- The coordinator's notification arrives as it was sent, within thirty seconds of its timestamp and with a nonce
    that is not among the recent ones: it is taken, and whatever else the server and the agent do before its thread
    gets to handle it, `handle_offer` or `handle_remove` then does what it does on the payload itself, although that
    was sorted, printed, signed, sent, verified and parsed. -/
theorem notice_delivered {hexdigest : Bytes → Text} (hascii : Ascii hexdigest) {w v : Node} {notice : Notice}
    {payload : Payload} {time : ℕ} {token : Token} {now : ℚ} {rest : Bytes} {ended : Bool} {ls : List Label}
    (htime : time < floatLimit) (hnow : |now - time| ≤ notificationMaxSkew)
    (hsize : ((encode payload.1.dumps).length : ℤ) ≤ maxRequestSize)
    (hnew : hexText token.1 ∉ (SeenCache.purge (now - nonceTtl) w.net.seen).keys)
    (hrun : (machine hexdigest).run w
      (.request (Signed.request (signedPost notice payload time token) hexdigest rest ended) now :: ls) = some v)
    (hwaits : ∀ l ∈ ls, l.handles ≠ some w.taken.length) :
    (notice = .offer → ∀ env calls, ∃ v', (machine hexdigest).step v (.offer w.taken.length env calls) = some v' ∧
      v'.agent = (v.agent.offer env payload.1 .responder calls).2) ∧
    (notice = .remove → ∀ address at_ calls, ∃ v',
      (machine hexdigest).step v (.remove w.taken.length address at_ calls) = some v' ∧
        v'.agent = (v.agent.remove address payload.1 at_ calls).2) := by
  obtain ⟨u, hstep, hrest⟩ := ((machine hexdigest).run_cons).mp hrun
  have htaken : (w.request hexdigest (Signed.request (signedPost notice payload time token) hexdigest rest ended)
      now).taken = w.taken ++ [⟨notice, payload.1.sortKeys, false⟩] := by
    rw [request_taken hascii htime hnow hsize hnew]
  have hu : u = w.request hexdigest (Signed.request (signedPost notice payload time token) hexdigest rest ended) now := by
    have hif : (if now < w.net.clock then none else some (w.request hexdigest
      (Signed.request (signedPost notice payload time token) hexdigest rest ended) now)) = some u := hstep
    split at hif
    · cases hif
    · exact (Option.some.inj hif).symm
  have hwaiting : v.taken[w.taken.length]? = some ⟨notice, payload.1.sortKeys, false⟩ := by
    refine waits_run hrest hwaits ?_
    rw [hu, htaken, List.getElem?_append_right le_rfl, Nat.sub_self]
    rfl
  constructor
  · rintro rfl env calls
    rw [← offer_sortKeys v.agent env .responder calls payload]
    exact step_offer hwaiting env calls
  · rintro rfl address at_ calls
    rw [← remove_sortKeys v.agent address at_ calls payload]
    exact step_remove hwaiting address at_ calls

/-! ### An offer arrives -/

theorem peerOffer_sortKeys : Agent.peerOffer.sortKeys = .obj
    [("candidates".toList, .arr [.obj [("endpoint".toList, .str "[2606:4700::5]:51820".toList),
        ("priority".toList, .int 900), ("type".toList, .str "host6".toList)]]),
      ("endpoint".toList, .str "198.51.100.7:41000".toList), ("endpoint_type".toList, .str "WAN".toList),
      ("peer_ip".toList, .str "10.0.0.5".toList), ("peer_key".toList, .str Agent.zeroKey.1),
      ("session_id".toList, .str "0a1b2c3d-0000-4000-8000-00000000000f".toList),
      ("session_started_ns".toList, .int 5)] := by
  simp [Agent.peerOffer, Agent.sessionOffer, Json.sortKeys, Json.sortFields, Json.sortItems, List.mergeSort,
    List.MergeSort.Internal.splitInTwo, Json.keyLe]

theorem length_peerOffer : ((encode Agent.peerOffer.dumps).length : ℤ) ≤ maxRequestSize := by
  rw [Json.dumps, peerOffer_sortKeys]
  decide +kernel

theorem printable_peerOffer : Agent.peerOffer.Printable := by
  refine ⟨by decide +kernel, trivial, trivial, trivial, ?_, trivial, trivial, ?_, trivial⟩
  · show (Numeral.text 10 _).length ≤ 4300
    decide +kernel
  · refine ⟨⟨by decide +kernel, trivial, trivial, ?_, trivial⟩, trivial⟩
    show (Numeral.text 10 _).length ≤ 4300
    decide +kernel

def offerPayload : Payload := ⟨Agent.peerOffer, printable_peerOffer⟩

theorem length_zeros : (List.replicate 16 (0 : UInt8)).length = 16 := List.length_replicate

def zeroToken : Token := ⟨_, length_zeros⟩

/-- The offer, signed at the time 100. -/
def offerSigned : Signed := signedPost .offer offerPayload ((100 : ℕ) : ℤ) zeroToken

/-- The offer arrives; nothing follows it on the connection. -/
def offerRequest : Request := Signed.request offerSigned hexText [] true

theorem offerTime_lt : 100 < floatLimit := by
  unfold floatLimit
  decide +kernel

/-- The offer arrived in time and waits for its handler. -/
def offerWaits (w : Node) (now : ℚ) : Node :=
  { w with
    net := { w.net with
      seen := SeenCache.store maxSeenNonces (hexText zeroToken.1) now (SeenCache.purge (now - nonceTtl) w.net.seen)
      clock := now }
    taken := w.taken ++ [⟨.offer, Agent.peerOffer.sortKeys, false⟩] }

theorem offerRequest_taken {w : Node} {now : ℚ} (hclock : w.net.clock ≤ now)
    (hnow : |now - (100 : ℕ)| ≤ notificationMaxSkew)
    (hnew : hexText zeroToken.1 ∉ (SeenCache.purge (now - nonceTtl) w.net.seen).keys) :
    (machine hexText).step w (.request offerRequest now) = some (offerWaits w now) := by
  have htaken : w.request hexText offerRequest now = offerWaits w now :=
    @request_taken hexText w ascii_hexText .offer offerPayload 100 zeroToken now [] true offerTime_lt hnow
      length_peerOffer hnew
  show (if now < w.net.clock then none else some (w.request hexText offerRequest now)) = _
  rw [if_neg (not_lt.mpr hclock), htaken]

/-- It arrives a second later, its thread handles it, and the agent serves the peer. -/
theorem notice_delivered_offer : ∃ v v', (machine hexText).run (.start 100 .start) [.request offerRequest 101] = some v ∧
    (machine hexText).step v (.offer 0 (Agent.nodeEnv 101) .succeed) = some v' ∧
      (v'.agent.shared.states.get? Agent.zeroKey).isSome = true := by
  have hnew : hexText zeroToken.1 ∉ (SeenCache.purge (101 - nonceTtl) (Node.start 100 .start).net.seen).keys :=
    List.not_mem_nil
  have hrun : (machine hexText).run (.start 100 .start) [.request offerRequest 101] =
      some (offerWaits (.start 100 .start) 101) := by
    refine ((machine hexText).run_cons).mpr ⟨_, offerRequest_taken ?_ ?_ hnew, rfl⟩
    · norm_num [Node.start, World.start]
    · norm_num [notificationMaxSkew]
  obtain ⟨v', hv', hagent⟩ := (@notice_delivered hexText ascii_hexText _ _ .offer offerPayload 100 zeroToken 101 []
    true [] offerTime_lt (by norm_num [notificationMaxSkew]) length_peerOffer hnew hrun
    fun l hl => absurd hl List.not_mem_nil).1 rfl (Agent.nodeEnv 101) .succeed
  refine ⟨_, v', hrun, hv', ?_⟩
  have hserves : ((Agent.World.start.offer (Agent.nodeEnv 101) Agent.peerOffer .responder .succeed).2.shared.states.get?
      Agent.zeroKey).isSome = true := by decide +kernel
  rw [hagent]
  exact hserves

/-- Whatever requests are sent to the server, and however their threads and the rest of the agent interleave, as long
    as only the coordinator can sign: the agent makes a run of its own; each notification its handlers are given was
    signed, for that handler and with that content; and while the cache of nonces has room, no more often than it
    was signed. -/
theorem handled_once (hexdigest : Bytes → Text) {clock : ℚ} {a : Agent.World} {ls : List Label} {w : Node}
    (hok : (machine hexdigest).Along (Ideal hexdigest) (.start clock a) ls)
    (hrun : (machine hexdigest).run (.start clock a) ls = some w) :
    Agent.machine.run a (agentLabels hexdigest (.start clock a) ls) = some w.agent ∧
      handled hexdigest (.start clock a) ls ⊆ posted ls ∧
      ((machine hexdigest).Along Roomy (.start clock a) ls →
        (handled hexdigest (.start clock a) ls).Subperm (posted ls)) := by
  have hdone := handled_start hrun
  have hposted := opened_start hrun
  refine ⟨agent_run hrun, fun c hc => ?_, fun hroom => ?_⟩
  · obtain ⟨t, ht, rfl⟩ := List.mem_map.mp (done_subset w (hdone.symm.subset hc))
    obtain ⟨s, hs, hopen⟩ := (taken_run hok hrun).2 t ht
    exact List.mem_reverse.mp (hposted ▸ List.mem_filterMap.mpr ⟨s, hs, hopen⟩)
  · have hsub : w.done.Subperm (w.taken.map Taken.content) := (List.filter_sublist.map _).subperm
    have hall := hsub.trans (once_run hok hroom hrun).subperm
    rw [hposted] at hall
    exact hdone.symm.subperm.trans (hall.trans (List.reverse_perm _).subperm)

/-! ### The offer is sent twice -/

/-- What `signed_post` sends is ideal where it was signed. -/
theorem ideal_request {hexdigest : Bytes → Text} {w : Node} {notice : Notice} {payload : Payload} {time : ℤ}
    {token : Token} {rest : Bytes} {ended : Bool} {now : ℚ} (hs : signedPost notice payload time token ∈ w.net.signed)
    (hsize : ((encode payload.1.dumps).length : ℤ) ≤ maxRequestSize) :
    Ideal hexdigest w (.request (Signed.request (signedPost notice payload time token) hexdigest rest ended) now) := by
  intro body hbody
  have hread := @body_request hexdigest (signedPost notice payload time token) rest ended (encode_dumps_ne_nil payload)
    hsize
  obtain rfl := Except.ok.inj (hread.symm.trans hbody)
  have hheaders := signedPost_headers notice payload time token
  refine ⟨⟨hheaders.method, hheaders.path, ?_, ?_⟩, ?_⟩
  · intro t ht
    exact Option.some.inj ht ▸ hheaders.timestamp
  · intro t ht
    exact Option.some.inj ht ▸ hheaders.nonce
  · intro nonce hn _
    obtain rfl := Option.some.inj hn
    refine ⟨signedPost notice payload time token, hs, ?_⟩
    show signaturePayload _ _ _ (hexText token.1) _ = signaturePayload _ _ _ (lower (hexText token.1)) _
    rw [lower_hexText]
    rfl

/-- The offer is signed, arrives, is handled, and arrives once more. -/
def replayRun : List Label :=
  [.post .offer offerPayload ((100 : ℕ) : ℤ) zeroToken, .request offerRequest 101,
    .offer 0 (Agent.nodeEnv ((101 : ℕ))) .succeed, .request offerRequest 102]

/-- The offer was signed. -/
def offerPosted : Node := { Node.start 100 .start with net := { World.start 100 with signed := [offerSigned] } }

/-- The offer was handled. -/
def offerHandled : Node :=
  { offerWaits offerPosted 101 with
    agent := (Agent.World.start.offer (Agent.nodeEnv ((101 : ℕ))) Agent.peerOffer.sortKeys .responder .succeed).2
    taken := [⟨.offer, Agent.peerOffer.sortKeys, true⟩] }

theorem replayRun_run : (machine hexText).step (.start 100 .start)
      (.post .offer offerPayload ((100 : ℕ) : ℤ) zeroToken) = some offerPosted ∧
    (machine hexText).step offerPosted (.request offerRequest 101) = some (offerWaits offerPosted 101) ∧
    (machine hexText).step (offerWaits offerPosted 101) (.offer 0 (Agent.nodeEnv 101) .succeed) = some offerHandled ∧
    (machine hexText).step offerHandled (.request offerRequest 102) =
      some (offerHandled.request hexText offerRequest 102) := by
  refine ⟨rfl, offerRequest_taken ?_ ?_ List.not_mem_nil, rfl, ?_⟩
  · norm_num [offerPosted, World.start]
  · norm_num [notificationMaxSkew]
  · show (if (102 : ℚ) < 101 then none else some (offerHandled.request hexText offerRequest 102)) = _
    rw [if_neg (by norm_num)]

/-- The agent serves the peer, and the offer was handled once. -/
theorem handled_once_replayRun : ∃ w, (machine hexText).run (.start 100 .start) replayRun = some w ∧
    (w.agent.shared.states.get? Agent.zeroKey).isSome = true ∧
    (handled hexText (.start 100 .start) replayRun).Subperm [(.offer, Agent.peerOffer.sortKeys)] := by
  obtain ⟨hpost, hrequest, hoffer, hagain⟩ := replayRun_run
  have hrun : (machine hexText).run (.start 100 .start) replayRun =
      some (offerHandled.request hexText offerRequest 102) := by
    refine ((machine hexText).run_cons).mpr ⟨_, hpost, ((machine hexText).run_cons).mpr ⟨_, hrequest, ?_⟩⟩
    exact ((machine hexText).run_cons).mpr ⟨_, hoffer, ((machine hexText).run_cons).mpr ⟨_, hagain, rfl⟩⟩
  have hok : (machine hexText).Along (Ideal hexText) (.start 100 .start) replayRun := by
    refine ⟨trivial, fun u hu => ?_⟩
    obtain rfl := Option.some.inj (hpost.symm.trans hu)
    refine ⟨ideal_request (List.mem_singleton_self _) length_peerOffer, fun u hu => ⟨trivial, fun v hv => ?_⟩⟩
    obtain rfl := Option.some.inj (hrequest.symm.trans hu)
    obtain rfl := Option.some.inj (hoffer.symm.trans hv)
    exact ⟨ideal_request (List.mem_singleton_self _) length_peerOffer, fun _ _ => trivial⟩
  have hroom : (machine hexText).Along Roomy (.start 100 .start) replayRun := by
    refine ⟨trivial, fun u hu => ?_⟩
    obtain rfl := Option.some.inj (hpost.symm.trans hu)
    refine ⟨?_, fun u hu => ⟨trivial, fun v hv => ?_⟩⟩
    · show (SeenCache.purge (101 - nonceTtl) (.empty : Seen)).entries.length < maxSeenNonces
      decide
    · obtain rfl := Option.some.inj (hrequest.symm.trans hu)
      obtain rfl := Option.some.inj (hoffer.symm.trans hv)
      refine ⟨?_, fun _ _ => trivial⟩
      show (SeenCache.purge (102 - nonceTtl) (SeenCache.store maxSeenNonces (hexText zeroToken.1) 101
        (SeenCache.purge (101 - nonceTtl) (.empty : Seen)))).entries.length < maxSeenNonces
      decide +kernel
  obtain ⟨hagent, -, honce⟩ := handled_once hexText hok hrun
  refine ⟨_, hrun, ?_, honce hroom⟩
  have hserves : ((Agent.World.start.offer (Agent.nodeEnv 101) Agent.peerOffer .responder .succeed).2.shared.states.get?
      Agent.zeroKey).isSome = true := by decide +kernel
  rw [request_agent]
  show ((Agent.World.start.offer (Agent.nodeEnv 101) offerPayload.1.sortKeys .responder .succeed).2.shared.states.get?
    Agent.zeroKey).isSome = true
  rw [offer_sortKeys]
  exact hserves

/-- A request that is answered 404 or 400, or 403 without an `OSError`, leaves the agent as it was, whatever state the
    server and the agent are in: unless the description of the node raises such an error, after the handler is done. -/
theorem refused_unchanged {hexdigest : Bytes → Text} {w w' : Node} {l : Label} {denied : Bool} {reply : Option Raised}
    {s : Status} (hreply : ∀ e ∈ reply, ¬ (statusOf denied e).IsClientError denied)
    (hstep : (machine hexdigest).step w l = some w') (hanswer : w.answer hexdigest denied reply l = some s)
    (hs : s.IsClientError denied) : w'.agent = w.agent := by
  cases l with
  | post => cases hanswer
  | own lab => cases hanswer
  | request r now =>
    cases (step_request hstep).2 <;> rfl
  | offer i env calls =>
    obtain ⟨data, ht, hagent⟩ := stepped_offer hstep
    unfold Node.answer at hanswer
    dsimp only at hanswer
    rw [ht] at hanswer
    obtain rfl := Option.some.inj hanswer
    exact hagent.trans (offer_refused hreply hs)
  | remove i address now calls =>
    obtain ⟨data, ht, hagent⟩ := stepped_remove hstep
    unfold Node.answer at hanswer
    dsimp only at hanswer
    rw [ht] at hanswer
    obtain rfl := Option.some.inj hanswer
    exact hagent.trans (remove_refused hs)

/-- The agent serves a session, and an offer of the same session with another start waits. -/
def restarted : Node :=
  ⟨.start 100, (Agent.World.start.offer (Agent.nodeEnv ((100 : ℕ))) Agent.peerOffer .responder .succeed).2,
    [⟨.offer, Agent.sessionOffer "0a1b2c3d-0000-4000-8000-00000000000f" 6, false⟩]⟩

/-- It is answered 400, and the session goes on. -/
theorem refused_unchanged_restarted : ∃ w', (machine hexText).step restarted (.offer 0 (Agent.nodeEnv 101) .succeed) =
      some w' ∧ w'.agent = restarted.agent ∧ (restarted.agent.shared.states.get? Agent.zeroKey).isSome = true := by
  obtain ⟨w', hw', -⟩ := @step_offer hexText restarted 0 _ rfl (Agent.nodeEnv 101) .succeed
  have hanswer : restarted.answer hexText false none (.offer 0 (Agent.nodeEnv 101) .succeed) = some .badRequest := by
    decide +kernel
  exact ⟨w', hw', refused_unchanged (fun _ he => absurd he (Option.not_mem_none _)) hw' hanswer (.inr (.inl rfl)), by decide +kernel⟩

end Server
