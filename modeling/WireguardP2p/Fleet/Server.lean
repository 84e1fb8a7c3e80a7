import WireguardP2p.Fleet.World
import WireguardP2p.Notification.Delivery
import WireguardP2p.Notification.Replay

/-! `p2p_agent.py`: the server that takes the notifications (`do_POST`, `read_signed_json`). Anybody may send
    it anything; a request that passes its checks waits in its thread for STATE_LOCK and is handled
    there, while other requests arrive and the rest of the agent goes on. What reaches the handlers is
    what the coordinator signed, unaltered and, while the cache of nonces has room, not twice. -/

namespace Server
open Ipaddress Python Notification Runs

/-- `MAX_REQUEST_SIZE`. -/
def maxRequestSize : ℤ := 16384

/-- What a handler reads of a POST request; a header that is missing is `none`. -/
structure Request where
  clientAddress : Text
  path : Text
  contentLength : Option Text
  timestamp : Option Text
  nonce : Option Text
  signature : Option Text
  /-- What comes after the headers, and whether the sender ends it there. -/
  stream : Bytes
  ended : Bool

namespace Request

/-- `self.rfile.read(size)`: it waits for that many bytes or for the end, ten seconds at most. -/
def read (r : Request) (size : ℕ) : Except Raised Bytes :=
  if size ≤ r.stream.length ∨ r.ended then .ok (r.stream.take size) else .error .osError

/-- `int(self.headers.get("Content-Length", "0"))`. -/
def size (r : Request) : Except Raised ℤ :=
  match intText 10 (r.contentLength.getD "0".toList) with
  | some n => .ok n
  | none => .error .builtinValueError

/-- `read_signed_json` up to the verification. -/
def body (r : Request) : Except Raised Bytes :=
  if r.clientAddress ≠ Agent.vpsAddress then .error (.permissionError "request is not from VPS")
  else do
    let size ← r.size
    if size ≤ 0 ∨ maxRequestSize < size then .error (.valueError "invalid request size")
    else r.read size.toNat

/-- What the verification is given. -/
def call (r : Request) (body : Bytes) : Call :=
  ⟨"POST".toList, r.path, some (r.timestamp.getD []), some (r.nonce.getD []), some (r.signature.getD []), body⟩

end Request

/-- `read_signed_json`. -/
def readSignedJson (hexdigest : Bytes → Text) (r : Request) (now : ℚ) : Raising Seen Raised Json := do
  let body ← Raising.ofExcept r.body
  verifySignedNotification hexdigest (r.call body) now

/-- The handler of a path. -/
def handlerOf (path : Text) : Option Notice := [Notice.offer, .remove].find? fun n => n.path = path

/-- A request that passed its checks, in its thread. -/
structure Taken where
  notice : Notice
  data : Json
  done : Bool

def Taken.content (t : Taken) : Notice × Json := (t.notice, t.data)

/-- The notifications on their way, the agent, and the requests it took so far. -/
structure Node where
  net : Notification.World
  agent : Agent.World
  taken : List Taken

inductive Label
  /-- The coordinator signs a notification. -/
  | post (notice : Notice) (payload : Payload) (time : ℤ) (token : Token)
  /-- A request arrives, at this reading of the clock. -/
  | request (r : Request) (now : ℚ)
  /-- `handle_offer` of the request `i`. -/
  | offer (i : ℕ) (env : Agent.OfferEnv) (calls : Agent.OfferCalls)
  /-- `handle_remove` of the request `i`. -/
  | remove (i : ℕ) (listenAddress : Text) (now : Agent.Time) (calls : Agent.RemoveCalls)
  /-- A step of the agent outside the server. -/
  | own (l : Agent.Label)

/-- Nothing was signed and nothing taken. -/
def Node.start (clock : ℚ) (agent : Agent.World) : Node := ⟨.start clock, agent, []⟩

variable (hexdigest : Bytes → Text)

namespace Node

/-- `do_POST` up to the handler; any other path is not found. -/
def request (w : Node) (r : Request) (now : ℚ) : Node :=
  match handlerOf r.path with
  | none => { w with net := { w.net with clock := now } }
  | some notice =>
    match (readSignedJson hexdigest r now).run w.net.seen with
    | (.error _, seen) => { w with net := { w.net with seen, clock := now } }
    | (.ok data, seen) =>
      { w with net := { w.net with seen, clock := now }, taken := w.taken ++ [⟨notice, data, false⟩] }

/-- What a step is to the agent. -/
def agentLabel (w : Node) : Label → Option Agent.Label
  | .offer i env calls =>
    match w.taken[i]? with
    | some ⟨.offer, data, false⟩ => some (.offer env data .responder calls)
    | _ => none
  | .remove i listenAddress now calls =>
    match w.taken[i]? with
    | some ⟨.remove, data, false⟩ => some (.remove listenAddress data now calls)
    | _ => none
  | .own l => if l.isNotice then none else some l
  | _ => none

/-- The requests after the one at `i` was handled. -/
def finish (w : Node) (i : ℕ) : List Taken :=
  match w.taken[i]? with
  | some t => w.taken.set i { t with done := true }
  | none => w.taken

def step (w : Node) (l : Label) : Option Node :=
  match l with
  | .post notice payload time token =>
    some { w with net := { w.net with signed := signedPost notice payload time token :: w.net.signed } }
  | .request r now => if now < w.net.clock then none else some (w.request hexdigest r now)
  | .own _ => do
    let lab ← w.agentLabel l
    let agent ← Agent.machine.step w.agent lab
    return { w with agent }
  | .offer i _ _ | .remove i _ _ _ => do
    let lab ← w.agentLabel l
    let agent ← Agent.machine.step w.agent lab
    return { w with agent, taken := w.finish i }

end Node

def machine : Machine Node Label := ⟨Node.step hexdigest⟩

/-- The steps of the agent in a run. -/
def agentLabels : Node → List Label → List Agent.Label
  | _, [] => []
  | w, l :: ls =>
    match w.step hexdigest l with
    | some w' => (w.agentLabel l).toList ++ agentLabels w' ls
    | none => []

/-- The notification a step of the agent handles. -/
def noticeOf : Agent.Label → Option (Notice × Json)
  | .offer _ data .responder _ => some (.offer, data)
  | .remove _ data _ _ => some (.remove, data)
  | _ => none

/-- The notifications handled in a run. -/
def handled (w : Node) (ls : List Label) : List (Notice × Json) :=
  (agentLabels hexdigest w ls).filterMap noticeOf

/-- The request that a step handles. -/
def Label.handles : Label → Option ℕ
  | .offer i _ _ => some i
  | .remove i _ _ _ => some i
  | _ => none

/-- The notification that a step signs, as it is read back. -/
def Label.posts : Label → Option (Notice × Json)
  | .post notice payload _ _ => some (notice, payload.1.sortKeys)
  | _ => none

/-- The notifications signed in a run. -/
def posted (ls : List Label) : List (Notice × Json) := ls.filterMap Label.posts

/-- The requests of a run: any, but for the conditions on their headers and signatures. -/
def Ideal (w : Node) : Label → Prop
  | .request r now => ∀ body, r.body = .ok body → Notification.Ideal hexdigest w.net (.verify (r.call body) now)
  | _ => True

/-- The cache of nonces has room when a request arrives. -/
def Roomy (w : Node) : Label → Prop
  | .request _ now => (SeenCache.purge (now - nonceTtl) w.net.seen).entries.length < maxSeenNonces
  | _ => True

/-- What is read of a notification that was signed. -/
def opened (s : Signed) : Option (Notice × Json) :=
  match handlerOf s.path, readBody s.body with
  | some notice, .ok data => some (notice, data)
  | _, _ => none

/-- The notifications that were handled so far. -/
def Node.done (w : Node) : List (Notice × Json) := (w.taken.filter Taken.done).map Taken.content

/-! ### One request -/

section Step
variable {hexdigest : Bytes → Text} {w w' : Node} {l : Label}

theorem handlerOf_path (notice : Notice) : handlerOf notice.path = some notice := by
  cases notice <;> rfl

theorem opened_signedPost (notice : Notice) (payload : Payload) (time : ℤ) (token : Token) :
    opened (signedPost notice payload time token) = some (notice, payload.1.sortKeys) := by
  rw [opened, readBody_signedPost, show (signedPost notice payload time token).path = notice.path from rfl,
    handlerOf_path]

/-- What the verification returns is read off the body. -/
theorem readBody_of_verify {v : Notification.World} {c : Call} {now : ℚ} {data : Json}
    (h : (v.verify hexdigest c now).1 = .ok data) : readBody c.body = .ok data := by
  have hv : Verified hexdigest c now v.seen (v.verify hexdigest c now) := verified ..
  generalize v.verify hexdigest c now = r at hv h
  cases hv with
  | refused e | replayed e => cases h
  | stored nonce hc hm => exact h

/-- What a request does: it is refused and leaves the cache, or it is verified and refused, or taken. -/
inductive Requested (hexdigest : Bytes → Text) (w : Node) (r : Request) (now : ℚ) : Node → Prop
  | refused : Requested hexdigest w r now { w with net := { w.net with clock := now } }
  | rejected (body : Bytes) (hbody : r.body = .ok body)
      (hrej : w.net.accepts hexdigest (r.call body) now = false) :
      Requested hexdigest w r now
        { w with net := { w.net with seen := (w.net.verify hexdigest (r.call body) now).2, clock := now } }
  | taken (notice : Notice) (body : Bytes) (data : Json) (hpath : handlerOf r.path = some notice)
      (hbody : r.body = .ok body) (hacc : w.net.accepts hexdigest (r.call body) now = true)
      (hdata : readBody body = .ok data) :
      Requested hexdigest w r now
        { w with
          net := { w.net with seen := (w.net.verify hexdigest (r.call body) now).2, clock := now }
          taken := w.taken ++ [⟨notice, data, false⟩] }

theorem requested (hexdigest : Bytes → Text) (w : Node) (r : Request) (now : ℚ) :
    Requested hexdigest w r now (w.request hexdigest r now) := by
  unfold Node.request
  cases hpath : handlerOf r.path with
  | none => exact .refused
  | some notice =>
    cases hbody : r.body with
    | error e =>
      have hrun : (readSignedJson hexdigest r now).run w.net.seen = (.error e, w.net.seen) := by
        rw [readSignedJson, hbody]
        rfl
      rw [hrun]
      exact .refused
    | ok body =>
      have hrun : (readSignedJson hexdigest r now).run w.net.seen =
          w.net.verify hexdigest (r.call body) now := by
        rw [readSignedJson, hbody]
        rfl
      rw [hrun]
      rcases hv : w.net.verify hexdigest (r.call body) now with ⟨e | data, seen⟩
      · have hrej : w.net.accepts hexdigest (r.call body) now = false := by
          rw [World.accepts, hv]
          rfl
        have hseen : (w.net.verify hexdigest (r.call body) now).2 = seen := congrArg Prod.snd hv
        exact hseen ▸ .rejected body hbody hrej
      · have hacc : w.net.accepts hexdigest (r.call body) now = true := by
          rw [World.accepts, hv]
          rfl
        have hseen : (w.net.verify hexdigest (r.call body) now).2 = seen := congrArg Prod.snd hv
        exact hseen ▸ .taken notice body data hpath hbody hacc (readBody_of_verify (congrArg Prod.fst hv))

theorem request_agent (w : Node) (r : Request) (now : ℚ) : (w.request hexdigest r now).agent = w.agent := by
  have hr := requested hexdigest w r now
  generalize w.request hexdigest r now = w' at hr ⊢
  cases hr <;> rfl

theorem step_request {r : Request} {now : ℚ} (h : (machine hexdigest).step w (.request r now) = some w') :
    w.net.clock ≤ now ∧ Requested hexdigest w r now w' := by
  have hstep : (if now < w.net.clock then none else some (w.request hexdigest r now)) = some w' := h
  split at hstep
  · cases hstep
  · rename_i hclock
    obtain rfl := Option.some.inj hstep
    exact ⟨not_lt.mp hclock, requested hexdigest w r now⟩

theorem noticeOf_eq_none {lab : Agent.Label} (h : lab.isNotice = false) : noticeOf lab = none := by
  cases lab with
  | offer env data controller calls =>
    cases controller with
    | responder => cases h
    | initiator => rfl
  | remove listenAddress data now calls => cases h
  | _ => rfl

/-- The agent label of a step that handles a request is about that request. -/
theorem agentLabel_handler {i : ℕ} {lab : Agent.Label}
    (hl : (∃ env calls, l = .offer i env calls) ∨ ∃ address now calls, l = .remove i address now calls)
    (h : w.agentLabel l = some lab) :
    ∃ t, w.taken[i]? = some t ∧ t.done = false ∧ noticeOf lab = some t.content := by
  rcases hl with ⟨env, calls, rfl⟩ | ⟨address, now, calls, rfl⟩
  · unfold Node.agentLabel at h
    dsimp only at h
    split at h <;> cases h
    rename_i data ht
    exact ⟨_, ht, rfl, rfl⟩
  · unfold Node.agentLabel at h
    dsimp only at h
    split at h <;> cases h
    rename_i data ht
    exact ⟨_, ht, rfl, rfl⟩

/-- What a step can do. -/
inductive Moved (hexdigest : Bytes → Text) (w : Node) : Label → Node → Prop
  | post (notice : Notice) (payload : Payload) (time : ℤ) (token : Token) :
      Moved hexdigest w (.post notice payload time token)
        { w with net := { w.net with signed := signedPost notice payload time token :: w.net.signed } }
  | request (r : Request) (now : ℚ) (w' : Node) (hclock : w.net.clock ≤ now)
      (hr : Requested hexdigest w r now w') : Moved hexdigest w (.request r now) w'
  | own (lab : Agent.Label) (a : Agent.World) (hlab : w.agentLabel (.own lab) = some lab)
      (hnone : noticeOf lab = none) (ha : Agent.machine.step w.agent lab = some a) :
      Moved hexdigest w (.own lab) { w with agent := a }
  | handled (l : Label) (i : ℕ) (t : Taken) (lab : Agent.Label) (a : Agent.World) (ht : w.taken[i]? = some t)
      (hdone : t.done = false) (hlab : w.agentLabel l = some lab) (hnotice : noticeOf lab = some t.content)
      (hposts : l.posts = none) (hhandles : l.handles = some i) (ha : Agent.machine.step w.agent lab = some a) :
      Moved hexdigest w l { w with agent := a, taken := w.taken.set i { t with done := true } }

theorem moved (h : (machine hexdigest).step w l = some w') : Moved hexdigest w l w' := by
  have hhandler : ∀ i, ((∃ env calls, l = .offer i env calls) ∨ ∃ address now calls,
      l = .remove i address now calls) → ((w.agentLabel l).bind fun lab =>
        (Agent.machine.step w.agent lab).bind fun agent => some { w with agent, taken := w.finish i }) = some w' →
      Moved hexdigest w l w' := by
    intro i hl hstep
    obtain ⟨lab, hlab, hstep⟩ := Option.bind_eq_some_iff.mp hstep
    obtain ⟨a, ha, hstep⟩ := Option.bind_eq_some_iff.mp hstep
    obtain rfl := Option.some.inj hstep
    obtain ⟨t, ht, hdone, hnotice⟩ := agentLabel_handler hl hlab
    unfold Node.finish
    rw [ht]
    refine .handled l i t lab a ht hdone hlab hnotice ?_ ?_ ha
    · rcases hl with ⟨env, calls, rfl⟩ | ⟨address, now, calls, rfl⟩ <;> rfl
    · rcases hl with ⟨env, calls, rfl⟩ | ⟨address, now, calls, rfl⟩ <;> rfl
  cases l with
  | post notice payload time token =>
    obtain rfl := Option.some.inj h
    exact .post notice payload time token
  | request r now =>
    obtain ⟨hclock, hr⟩ := step_request h
    exact .request r now w' hclock hr
  | offer i env calls => exact hhandler i (.inl ⟨env, calls, rfl⟩) h
  | remove i address now calls => exact hhandler i (.inr ⟨address, now, calls, rfl⟩) h
  | own lab =>
    obtain ⟨lab', hlab, hstep⟩ := Option.bind_eq_some_iff.mp (show ((w.agentLabel (.own lab)).bind fun lab =>
      (Agent.machine.step w.agent lab).bind fun agent => some { w with agent }) = some w' from h)
    obtain ⟨a, ha, hstep⟩ := Option.bind_eq_some_iff.mp hstep
    obtain rfl := Option.some.inj hstep
    have hown := hlab
    unfold Node.agentLabel at hown
    dsimp only at hown
    split at hown
    · cases hown
    · rename_i hnot
      obtain rfl := Option.some.inj hown
      exact .own lab a hlab (noticeOf_eq_none (Bool.eq_false_iff.mpr hnot)) ha

end Step

/-! ### A run -/

section Runs
variable {hexdigest : Bytes → Text}

theorem agentLabels_cons {w w' : Node} {l : Label} (ls : List Label)
    (h : (machine hexdigest).step w l = some w') :
    agentLabels hexdigest w (l :: ls) = (w.agentLabel l).toList ++ agentLabels hexdigest w' ls := by
  have hstep : w.step hexdigest l = some w' := h
  rw [agentLabels, hstep]

/-- In a run of the server the agent makes a run of its own. -/
theorem agent_run {ls : List Label} : ∀ {w w' : Node}, (machine hexdigest).run w ls = some w' →
    Agent.machine.run w.agent (agentLabels hexdigest w ls) = some w'.agent := by
  induction ls with
  | nil =>
    intro w w' h
    obtain rfl := Option.some.inj h
    rfl
  | cons l ls ih =>
    intro w w' h
    obtain ⟨v, hstep, hrest⟩ := ((machine hexdigest).run_cons).mp h
    rw [agentLabels_cons ls hstep]
    have hrest := ih hrest
    cases moved hstep with
    | post notice payload time token => exact hrest
    | request r now _ hclock hr => cases hr <;> exact hrest
    | own lab a hlab hnone ha =>
      rw [hlab]
      exact Agent.machine.run_cons.mpr ⟨a, ha, hrest⟩
    | handled l i t lab a ht hdone hlab hnotice hposts hhandles ha =>
      rw [hlab]
      exact Agent.machine.run_cons.mpr ⟨a, ha, hrest⟩

theorem map_set_done {ts : List Taken} : ∀ {i : ℕ} {t : Taken}, ts[i]? = some t →
    (ts.set i { t with done := true }).map Taken.content = ts.map Taken.content := by
  induction ts with
  | nil =>
    intro i t ht
    cases ht
  | cons u ts ih =>
    intro i t ht
    cases i with
    | zero =>
      obtain rfl := Option.some.inj ht
      rfl
    | succ i =>
      rw [List.set_cons_succ, List.map_cons, List.map_cons, ih (i := i) ht]

/-- Marking a request as done adds it to those that are. -/
theorem filter_set_done {ts : List Taken} : ∀ {i : ℕ} {t : Taken}, ts[i]? = some t → t.done = false →
    (((ts.set i { t with done := true }).filter Taken.done).map Taken.content).Perm
      (t.content :: (ts.filter Taken.done).map Taken.content) := by
  induction ts with
  | nil =>
    intro i t ht
    cases ht
  | cons u ts ih =>
    intro i t ht hdone
    cases i with
    | zero =>
      obtain rfl := Option.some.inj ht
      simp [hdone, Taken.content]
    | succ i =>
      have hrest := ih (i := i) ht hdone
      rw [List.set_cons_succ]
      cases hu : u.done with
      | false => simpa [List.filter_cons, hu] using hrest
      | true =>
        simp only [List.filter_cons, hu, if_true, List.map_cons]
        exact (hrest.cons u.content).trans (.swap ..)

theorem done_step {w w' : Node} {l : Label} (h : (machine hexdigest).step w l = some w') :
    w'.done.Perm (w.done ++ (w.agentLabel l).toList.filterMap noticeOf) := by
  cases moved h with
  | post notice payload time token => simp [Node.done, Node.agentLabel]
  | request r now _ hclock hr => cases hr <;> simp [Node.done, Node.agentLabel]
  | own lab a hlab hnone ha => simp [Node.done, hlab, hnone]
  | handled l i t lab a ht hdone hlab hnotice hposts hhandles ha =>
    rw [hlab]
    simp only [Option.toList_some, List.filterMap_cons, hnotice, List.filterMap_nil]
    exact (filter_set_done ht hdone).trans (List.perm_append_singleton _ _).symm

theorem done_run {ls : List Label} : ∀ {w w' : Node}, (machine hexdigest).run w ls = some w' →
    w'.done.Perm (w.done ++ handled hexdigest w ls) := by
  induction ls with
  | nil =>
    intro w w' h
    obtain rfl := Option.some.inj h
    simp [handled, agentLabels]
  | cons l ls ih =>
    intro w w' h
    obtain ⟨v, hstep, hrest⟩ := ((machine hexdigest).run_cons).mp h
    rw [handled, agentLabels_cons ls hstep, List.filterMap_append, ← List.append_assoc]
    exact (ih hrest).trans ((done_step hstep).append_right _)

theorem opened_step {w w' : Node} {l : Label} (h : (machine hexdigest).step w l = some w') :
    w'.net.signed.filterMap opened = l.posts.toList ++ w.net.signed.filterMap opened := by
  cases moved h with
  | post notice payload time token => simp [Label.posts, opened_signedPost]
  | request r now _ hclock hr => cases hr <;> rfl
  | own lab a hlab hnone ha => rfl
  | handled l i t lab a ht hdone hlab hnotice hposts hhandles ha => simp [hposts]

/-- What was signed is what is posted in the run. -/
theorem opened_run {ls : List Label} : ∀ {w w' : Node}, (machine hexdigest).run w ls = some w' →
    w'.net.signed.filterMap opened = (posted ls).reverse ++ w.net.signed.filterMap opened := by
  induction ls with
  | nil =>
    intro w w' h
    obtain rfl := Option.some.inj h
    rfl
  | cons l ls ih =>
    intro w w' h
    obtain ⟨v, hstep, hrest⟩ := ((machine hexdigest).run_cons).mp h
    have hposted : posted (l :: ls) = l.posts.toList ++ posted ls := by
      rw [posted, List.filterMap_cons, posted]
      cases l.posts <;> rfl
    rw [ih hrest, opened_step hstep, hposted]
    cases l.posts <;> simp

/-! ### What was taken -/

/-- Every request that was taken carries what was signed. -/
def Genuine (w : Node) : Prop := ∀ t ∈ w.taken, ∃ s ∈ w.net.signed, opened s = some t.content

/-- A request that is taken carries a notification that was signed. -/
theorem genuine_request {w : Node} {r : Request} {now : ℚ} {notice : Notice} {body : Bytes} {data : Json}
    (hw : Sound w.net) (hi : Ideal hexdigest w (.request r now)) (hpath : handlerOf r.path = some notice)
    (hbody : r.body = .ok body) (hacc : w.net.accepts hexdigest (r.call body) now = true)
    (hdata : readBody body = .ok data) :
    ∃ s ∈ w.net.signed, (r.call body).Carries s ∧ opened s = some (notice, data) ∧
      (∃ n, intText 10 s.timestamp = some n ∧ |now - n| ≤ notificationMaxSkew) ∧
      s.nonce ∉ (SeenCache.purge (now - nonceTtl) w.net.seen).keys ∧
      (w.net.verify hexdigest (r.call body) now).2 =
        SeenCache.store maxSeenNonces s.nonce now (SeenCache.purge (now - nonceTtl) w.net.seen) := by
  cases called hw (hi body hbody) with
  | kept hrej | purged hrej =>
    rw [hacc] at hrej
    cases hrej
  | stored _ s hs hc htime hnew hseen =>
    refine ⟨s, hs, hc, ?_, htime, hnew, hseen⟩
    have hpath' : s.path = r.path := hc.2.1.symm
    have hbody' : s.body = body := hc.2.2.2.2.symm
    rw [opened, hpath', hpath, hbody', hdata]

theorem sound_step {w w' : Node} {l : Label} (hi : Ideal hexdigest w l) (hw : Sound w.net)
    (h : (machine hexdigest).step w l = some w') : Sound w'.net := by
  have hclock : ∀ now, w.net.clock ≤ now → Sound { w.net with clock := now } := fun now hle =>
    ⟨hw.headers, hw.method, hw.body, hw.ordered.mono hle, hw.bounded⟩
  have hverify : ∀ c now, w.net.clock ≤ now → (Notification.machine hexdigest).step w.net (.verify c now) =
      some { w.net with seen := (w.net.verify hexdigest c now).2, clock := now } := fun c now hle =>
    if_neg (not_lt.mpr hle)
  cases moved h with
  | post notice payload time token =>
    exact @Sound.step hexdigest _ _ (.post notice payload time token) hw trivial rfl
  | request r now _ hle hr =>
    cases hr with
    | refused => exact hclock now hle
    | rejected body hbody hrej => exact hw.step (hi body hbody) (hverify _ now hle)
    | taken notice body data hpath hbody hacc hdata => exact hw.step (hi body hbody) (hverify _ now hle)
  | own lab a hlab hnone ha => exact hw
  | handled l i t lab a ht hdone hlab hnotice hposts hhandles ha => exact hw

theorem genuine_step {w w' : Node} {l : Label} (hi : Ideal hexdigest w l) (hw : Sound w.net) (hg : Genuine w)
    (h : (machine hexdigest).step w l = some w') : Genuine w' := by
  cases moved h with
  | post notice payload time token =>
    intro t ht
    obtain ⟨s, hs, hopen⟩ := hg t ht
    exact ⟨s, List.mem_cons_of_mem _ hs, hopen⟩
  | request r now _ hle hr =>
    cases hr with
    | refused | rejected => exact hg
    | taken notice body data hpath hbody hacc hdata =>
      intro t ht
      rcases List.mem_append.mp ht with ht | ht
      · exact hg t ht
      · obtain rfl := List.mem_singleton.mp ht
        obtain ⟨s, hs, -, hopen, -⟩ := genuine_request hw hi hpath hbody hacc hdata
        exact ⟨s, hs, hopen⟩
  | own lab a hlab hnone ha => exact hg
  | handled l i t lab a ht hdone hlab hnotice hposts hhandles ha =>
    intro u hu
    rcases List.mem_or_eq_of_mem_set hu with hu | rfl
    · exact hg u hu
    · exact hg t (List.mem_of_getElem? ht)

/-! ### Taken once -/

/-- The notification was accepted at `t`: it cannot be accepted again. -/
structure Spent (v : Notification.World) (s : Signed) (t : ℚ) : Prop where
  signed : s ∈ v.signed
  near : ∃ n, intText 10 s.timestamp = some n ∧ |t - n| ≤ notificationMaxSkew
  kept : t + nonceTtl < v.clock ∨ v.seen.get? s.nonce = some t

/-- The requests that were taken carry different notifications. -/
def Once (w : Node) : Prop := ∃ ts : List (Signed × ℚ), (ts.map Prod.fst).Nodup ∧
  ts.map (fun p => opened p.1) = (w.taken.map Taken.content).map some ∧ ∀ p ∈ ts, Spent w.net p.1 p.2

theorem Spent.verify {v : Notification.World} {s : Signed} {t : ℚ} {c : Call} {now : ℚ} (h : Spent v s t)
    (hv : Sound v) (hi : Notification.Ideal hexdigest v (.verify c now)) (hle : v.clock ≤ now)
    (hroom : (SeenCache.purge (now - nonceTtl) v.seen).entries.length < maxSeenNonces) :
    Spent { v with seen := (v.verify hexdigest c now).2, clock := now } s t := by
  refine ⟨h.signed, h.near, ?_⟩
  rcases h.kept with hover | hseen
  · exact .inl (hover.trans_le hle)
  by_cases hold : t + nonceTtl < now
  · exact .inl hold
  have hpurge := SeenCache.get?_purge hseen (show now - nonceTtl ≤ t by linarith)
  right
  cases called hv hi with
  | kept _ heq => rw [heq]; exact hseen
  | purged _ heq => rw [heq]; exact hpurge
  | stored _ s' _ _ _ hnew heq =>
    have hne : s.nonce ≠ s'.nonce := fun he => hnew (he ▸ Dict.mem_keys.mpr ⟨t, hpurge⟩)
    rw [heq, SeenCache.get?_store_of_lt _ hroom, if_neg hne]
    exact hpurge

/-- A notification that is spent is not among those a request can carry. -/
theorem Spent.ne {v : Notification.World} {s s' : Signed} {t now : ℚ} (h : Spent v s t) (hle : v.clock ≤ now)
    (hnear : ∃ n, intText 10 s'.timestamp = some n ∧ |now - n| ≤ notificationMaxSkew)
    (hnew : s'.nonce ∉ (SeenCache.purge (now - nonceTtl) v.seen).keys) : s ≠ s' := by
  rintro rfl
  obtain ⟨n, hn, hskew⟩ := h.near
  obtain ⟨m, hm, hskew'⟩ := hnear
  obtain rfl := Option.some.inj (hn.symm.trans hm)
  -- both within the skew of one timestamp
  have hclose : now ≤ t + nonceTtl := by
    rw [abs_le] at hskew hskew'
    simp only [notificationMaxSkew, nonceTtl] at *
    linarith [hskew.1, hskew'.2]
  rcases h.kept with hover | hseen
  · linarith
  · exact hnew (Dict.mem_keys.mpr ⟨t, SeenCache.get?_purge hseen (by linarith)⟩)

theorem Once.verify {w : Node} {c : Call} {now : ℚ} (h : Once w) (hw : Sound w.net)
    (hi : Notification.Ideal hexdigest w.net (.verify c now)) (hle : w.net.clock ≤ now)
    (hroom : (SeenCache.purge (now - nonceTtl) w.net.seen).entries.length < maxSeenNonces) :
    Once { w with net := { w.net with seen := (w.net.verify hexdigest c now).2, clock := now } } := by
  obtain ⟨ts, hnodup, hmap, hspent⟩ := h
  exact ⟨ts, hnodup, hmap, fun p hp => (hspent p hp).verify hw hi hle hroom⟩

theorem once_step {w w' : Node} {l : Label} (hi : Ideal hexdigest w l) (hroom : Roomy w l) (hw : Sound w.net)
    (ho : Once w) (h : (machine hexdigest).step w l = some w') : Once w' := by
  obtain ⟨ts, hnodup, hmap, hspent⟩ := ho
  cases moved h with
  | post notice payload time token =>
    refine ⟨ts, hnodup, hmap, fun p hp => ?_⟩
    exact ⟨List.mem_cons_of_mem _ (hspent p hp).signed, (hspent p hp).near, (hspent p hp).kept⟩
  | request r now _ hle hr =>
    cases hr with
    | refused =>
      refine ⟨ts, hnodup, hmap, fun p hp => ⟨(hspent p hp).signed, (hspent p hp).near, ?_⟩⟩
      exact (hspent p hp).kept.imp_left fun hover => hover.trans_le hle
    | rejected body hbody hrej =>
      exact Once.verify ⟨ts, hnodup, hmap, hspent⟩ hw (hi body hbody) hle hroom
    | taken notice body data hpath hbody hacc hdata =>
      obtain ⟨s, hs, -, hopen, hnear, hnew, hseen⟩ := genuine_request hw hi hpath hbody hacc hdata
      refine ⟨ts ++ [(s, now)], ?_, ?_, ?_⟩
      · rw [List.map_append, List.nodup_append]
        refine ⟨hnodup, List.nodup_singleton s, ?_⟩
        intro s' hs' u hu
        obtain ⟨p, hp, rfl⟩ := List.mem_map.mp hs'
        obtain rfl := List.mem_singleton.mp hu
        exact (hspent p hp).ne hle hnear hnew
      · rw [List.map_append, List.map_append, List.map_append, hmap]
        exact congrArg (fun o => _ ++ [o]) hopen
      · intro p hp
        rcases List.mem_append.mp hp with hp | hp
        · exact (hspent p hp).verify hw (hi body hbody) hle hroom
        · obtain rfl := List.mem_singleton.mp hp
          refine ⟨hs, hnear, .inr ?_⟩
          show (w.net.verify hexdigest (r.call body) now).2.get? s.nonce = some now
          rw [hseen, SeenCache.get?_store_of_lt _ hroom, if_pos rfl]
  | own lab a hlab hnone ha => exact ⟨ts, hnodup, hmap, hspent⟩
  | handled l i t lab a ht hdone hlab hnotice hposts hhandles ha =>
    refine ⟨ts, hnodup, ?_, hspent⟩
    rw [hmap, map_set_done ht]

variable {clock : ℚ} {a : Agent.World}

theorem taken_run {ls : List Label} {w : Node} (hok : (machine hexdigest).Along (Ideal hexdigest) (.start clock a) ls)
    (hrun : (machine hexdigest).run (.start clock a) ls = some w) : Sound w.net ∧ Genuine w :=
  (machine hexdigest).run_invariant (I := fun w => Sound w.net ∧ Genuine w)
    (fun _ _ _ hi hw hs => ⟨sound_step hi hw.1 hs, genuine_step hi hw.1 hw.2 hs⟩)
    ⟨sound_start clock, fun _ ht => absurd ht List.not_mem_nil⟩ hok hrun

theorem once_run {ls : List Label} {w : Node} (hok : (machine hexdigest).Along (Ideal hexdigest) (.start clock a) ls)
    (hroom : (machine hexdigest).Along Roomy (.start clock a) ls)
    (hrun : (machine hexdigest).run (.start clock a) ls = some w) : Once w :=
  ((machine hexdigest).run_invariant (I := fun w => Sound w.net ∧ Once w)
    (fun _ _ _ hi hw hs => ⟨sound_step hi.1 hw.1 hs, once_step hi.1 hi.2 hw.1 hw.2 hs⟩)
    ⟨sound_start clock, [], List.nodup_nil, rfl, fun _ hp => absurd hp List.not_mem_nil⟩ (hok.and hroom) hrun).2

theorem done_subset (w : Node) : w.done ⊆ w.taken.map Taken.content :=
  List.map_subset _ List.filter_sublist.subset

/-- What was handled is what is marked as done. -/
theorem handled_start {ls : List Label} {w : Node} (hrun : (machine hexdigest).run (.start clock a) ls = some w) :
    w.done.Perm (handled hexdigest (.start clock a) ls) := by
  have hdone := done_run hrun
  rwa [show (Node.start clock a).done = [] from rfl, List.nil_append] at hdone

theorem opened_start {ls : List Label} {w : Node} (hrun : (machine hexdigest).run (.start clock a) ls = some w) :
    w.net.signed.filterMap opened = (posted ls).reverse := by
  rw [opened_run hrun]
  exact List.append_nil _

theorem filterMap_opened {ts : List (Signed × ℚ)} {cs : List (Notice × Json)}
    (h : ts.map (fun p => opened p.1) = cs.map some) : (ts.map Prod.fst).filterMap opened = cs := by
  have hmap : (ts.map fun p => opened p.1).filterMap id = cs := by
    rw [h, List.filterMap_map]
    exact List.filterMap_some
  rw [List.filterMap_map] at hmap ⊢
  exact hmap

theorem Once.subperm {w : Node} (h : Once w) : (w.taken.map Taken.content).Subperm (w.net.signed.filterMap opened) := by
  obtain ⟨ts, hnodup, hmap, hspent⟩ := h
  have hsub : (ts.map Prod.fst).Subperm w.net.signed := hnodup.subperm fun s hs => by
    obtain ⟨p, hp, rfl⟩ := List.mem_map.mp hs
    exact (hspent p hp).signed
  rw [← filterMap_opened hmap]
  obtain ⟨us, hperm, hus⟩ := hsub
  exact ⟨us.filterMap opened, hperm.filterMap _, hus.filterMap _⟩

end Runs

end Server
