import WireguardP2p.Agent.Launches
import WireguardP2p.Agent.Ownership
import WireguardP2p.Agent.Invariants

/-! What the steps of the machine do to the entries and the workers: `stepped` sorts them into three
    kinds. A section outside the workers turns entries and decides launches, which are kept unless
    something raises after them; a launch starts a worker; a worker takes a step of its own. -/

namespace Agent
open Ipaddress Python Candidates Raising

/-! ### Passes over all keys -/

/-- What a step outside the workers does to the entries, with the launches it decides. -/
structure Turns (sh₀ sh : Shared) (launches : List (PublicKey × ℕ)) : Prop where
  last_le : sh₀.lastGeneration ≤ sh.lastGeneration
  entry : ∀ k s, sh.states.get? k = some s → (∃ s₀, sh₀.states.get? k = some s₀ ∧ Kept s₀ s) ∨
    sh₀.lastGeneration < s.generation ∧ s.generation ≤ sh.lastGeneration ∧
      (s.workerRunning = true → (k, s.generation) ∈ launches ∧ s.mode ≠ .confirm6)
  new : ∀ l ∈ launches, sh₀.lastGeneration < l.2 ∧ l.2 ≤ sh.lastGeneration
  nodup : launches.Nodup

namespace Turns
variable {sh₀ sh₁ sh : Shared} {l l' : List (PublicKey × ℕ)}

theorem refl (sh : Shared) : Turns sh sh [] :=
  ⟨le_rfl, fun _ s hs => .inl ⟨s, hs, .refl s⟩, nofun, .nil⟩

theorem congr (hs : sh.states = sh₀.states) (hl : sh.lastGeneration = sh₀.lastGeneration) :
    Turns sh₀ sh [] :=
  ⟨hl.ge, fun _ s h => .inl ⟨s, hs ▸ h, .refl s⟩, nofun, .nil⟩

theorem trans (h : Turns sh₀ sh₁ l) (h' : Turns sh₁ sh l') : Turns sh₀ sh (l ++ l') := by
  have hle := h.last_le
  have hle' := h'.last_le
  refine ⟨hle.trans hle', fun k s hs => ?_, fun x hx => ?_, ?_⟩
  · rcases h'.entry k s hs with ⟨s₁, hs₁, hk⟩ | ⟨hlt, hg, hrun⟩
    · rcases h.entry k s₁ hs₁ with ⟨s₀, hs₀, hk₀⟩ | ⟨hlt, hg, hrun⟩
      · exact .inl ⟨s₀, hs₀, hk₀.trans hk⟩
      · rw [← hk.same.generation] at hlt hg hrun
        refine .inr ⟨hlt, by omega, fun hr => ?_⟩
        obtain ⟨hm, hc⟩ := hrun (hk.running hr)
        exact ⟨List.mem_append_left _ hm, fun hc' => hc (hk.confirm6 hc')⟩
    · exact .inr ⟨by omega, hg, fun hr => ⟨List.mem_append_right _ (hrun hr).1, (hrun hr).2⟩⟩
  · rcases List.mem_append.mp hx with hx | hx
    · exact ⟨(h.new x hx).1, (h.new x hx).2.trans hle'⟩
    · exact ⟨hle.trans_lt (h'.new x hx).1, (h'.new x hx).2⟩
  · refine List.nodup_append.mpr ⟨h.nodup, h'.nodup, fun x hx y hy hxy => ?_⟩
    have h₁ := (h.new x hx).2
    have h₂ := (h'.new y hy).1
    rw [hxy] at h₁
    omega

/-- A section on one key. -/
theorem put (launch : Option ℕ) {k : PublicKey} {sl : Slot}
    (h : TurnOrLaunched (sh.slot k) launch sl) :
    Turns sh (sh.put k sl) (launch.map (Prod.mk k)).toList := by
  cases launch with
  | none =>
    refine ⟨h.last_le, fun j s hs => ?_, nofun, .nil⟩
    rw [Shared.get?_put_states] at hs
    by_cases hj : j = k
    · rw [if_pos hj] at hs
      subst hj
      refine (h.entry s hs).imp id fun ⟨hlt, hg, hrun⟩ => ⟨hlt, hg, fun hr => ?_⟩
      exact absurd hr (by simp [hrun])
    · rw [if_neg hj] at hs
      exact .inl ⟨s, hs, .refl s⟩
  | some g =>
    obtain ⟨hnew, hlast, -, s₁, hs₁, hg, hrun, hmode⟩ := h
    have hlast : (sh.put k sl).lastGeneration = g := hlast
    refine ⟨by rw [hlast]; exact le_of_lt hnew, fun j s hs => ?_, ?_, List.nodup_singleton _⟩
    · rw [Shared.get?_put_states] at hs
      by_cases hj : j = k
      · rw [if_pos hj, hs₁, Option.some.injEq] at hs
        subst hs hj
        refine .inr ⟨hg ▸ hnew, hlast ▸ hg.le, fun _ => ⟨?_, by simp [hmode]⟩⟩
        simp [hg]
      · rw [if_neg hj] at hs
        exact .inl ⟨s, hs, .refl s⟩
    · intro x hx
      obtain rfl := List.mem_singleton.mp hx
      exact ⟨hnew, hlast.ge⟩

end Turns

/-- Whether a pass of the monitor marks a key, or asks the device to remove its peer. -/
def marksKey (sh : Shared) (now : Time) (k : PublicKey) : Bool :=
  match sh.states.get? k with
  | none => false
  | some s => monitorMarks now s (sh.wg.get? k)

def removesKey (sh : Shared) (now : Time) (k : PublicKey) : Bool :=
  match sh.states.get? k with
  | none => false
  | some s => monitorRemoves now s (sh.wg.get? k)

theorem marksKey_monitorPeer (sh : Shared) (now : Time) (k : PublicKey) (remove : Outcome) :
    (monitorPeer now remove).wp
      (fun r _ => r.launch.isSome → r.changed = true ∧ marksKey sh now k = true)
      (fun _ _ => removesKey sh now k = true ∧ remove ≠ .done) (sh.slot k) := by
  cases hs : sh.states.get? k with
  | none =>
    have hs' : (sh.slot k).entry = none := hs
    simp only [monitorPeer, wp_bind, wp_entry, hs', wp_pure]
    intro hn
    cases hn
  | some s =>
    simp only [marksKey, removesKey, hs]
    exact marks_monitorPeer hs

/-- The peers of the other keys are as they were, if the section took no route. -/
theorem Shared.get?_put_wg_of_ne {sh : Shared} {k j : PublicKey} {sl : Slot} (hj : j ≠ k)
    (ht : sl.taken = []) : (sh.put k sl).wg.get? j = sh.wg.get? j := by
  rw [get?_put_wg, if_neg hj, ht]
  cases sh.wg.get? j <;> simp

/-- No key is marked before one whose removal fails. -/
def MarksLast (sh : Shared) (now : Time) (remove : PublicKey → Outcome) (keys : List PublicKey) :
    Prop := keys.Pairwise fun a b =>
  marksKey sh now a = true → removesKey sh now b = true → remove b = .done

/-- The loop of `monitor_once`, from a state that agrees with `sh₀` on the keys to come. -/
theorem turns_monitorLoop {sh₀ : Shared} {now : Time} {remove : PublicKey → Outcome} :
    ∀ {keys : List PublicKey} {sh : Shared}, keys.Nodup →
      (∀ k ∈ keys, sh.states.get? k = sh₀.states.get? k ∧ sh.wg.get? k = sh₀.wg.get? k) →
      (monitorLoop now remove keys).wp
        (fun r sh' => Turns sh sh' r.2 ∧
          (r.2 ≠ [] → r.1 = true ∧ ∃ k ∈ keys, marksKey sh₀ now k = true))
        (fun _ sh' => (∃ b ∈ keys, removesKey sh₀ now b = true ∧ remove b ≠ .done) ∧
          ∃ l, Turns sh sh' l ∧ (MarksLast sh₀ now remove keys → l = [])) sh
  | [], sh, _, _ => ⟨.refl sh, fun h => absurd rfl h⟩
  | k :: ks, sh, hnd, hagree => by
    rw [List.nodup_cons] at hnd
    obtain ⟨hks, hkw⟩ := hagree k List.mem_cons_self
    have hmarks : marksKey sh now k = marksKey sh₀ now k := by rw [marksKey, marksKey, hks, hkw]
    have hremoves : removesKey sh now k = removesKey sh₀ now k := by
      rw [removesKey, removesKey, hks, hkw]
    rw [monitorLoop, wp_bind, wp_onKey]
    refine wp_mono (wp_and (turn_monitorPeer now (remove k) (sh.slot k))
      (marksKey_monitorPeer sh now k (remove k))) (fun r sl ⟨ht, hm⟩ => ?_) fun _ sl ⟨ht, hr⟩ => ?_
    · have hfirst := Turns.put _ ht
      have htaken : sl.taken = [] := by
        cases hl : r.launch with
        | none => rw [hl] at ht; exact ht.taken
        | some g => rw [hl] at ht; exact ht.taken
      have hagree' : ∀ j ∈ ks, (sh.put k sl).states.get? j = sh₀.states.get? j ∧
          (sh.put k sl).wg.get? j = sh₀.wg.get? j := fun j hj => by
        have hjk : j ≠ k := fun h => hnd.1 (h ▸ hj)
        rw [Shared.get?_put_states, if_neg hjk, Shared.get?_put_wg_of_ne hjk htaken]
        exact hagree j (List.mem_cons_of_mem _ hj)
      have hrest : (monitorLoop now remove ks).wp _ _ (sh.put k sl) :=
        turns_monitorLoop hnd.2 hagree'
      rw [wp_bind]
      refine wp_mono hrest (fun q sh' ⟨htq, hmq⟩ => ?_) fun _ sh' ⟨hb, l, htl, hl⟩ => ⟨?_, ?_⟩
      · refine ⟨hfirst.trans htq, fun hne => ?_⟩
        cases hlaunch : r.launch with
        | some g =>
          obtain ⟨hc, hk⟩ := hm (by rw [hlaunch]; rfl)
          exact ⟨by simp [hc], k, List.mem_cons_self, hmarks ▸ hk⟩
        | none =>
          obtain ⟨hc, j, hj, hmj⟩ := hmq (by simpa [hlaunch] using hne)
          exact ⟨by simp [hc], j, List.mem_cons_of_mem _ hj, hmj⟩
      · obtain ⟨b, hbm, hb⟩ := hb
        exact ⟨b, List.mem_cons_of_mem _ hbm, hb⟩
      · refine ⟨_, hfirst.trans htl, fun hlast => ?_⟩
        obtain ⟨hhead, htail⟩ := List.pairwise_cons.mp hlast
        cases hlaunch : r.launch with
        | none => simpa using hl htail
        | some g =>
          obtain ⟨b, hbm, hbr, hbd⟩ := hb
          have hk := (hm (by rw [hlaunch]; rfl)).2
          exact absurd (hhead b hbm (hmarks ▸ hk) hbr) hbd
    · refine ⟨⟨k, List.mem_cons_self, hremoves ▸ hr.1, hr.2⟩, [], ?_, fun _ => rfl⟩
      exact Turns.put none ht

/-- The pass keeps every launch it decides. -/
def PassSafe (sh : Shared) (now : Time) (calls : PassCalls) : Prop :=
  MarksLast sh now calls.remove sh.states.keys ∧
    ((∃ k ∈ sh.states.keys, marksKey sh now k = true) → calls.save = true)

theorem turns_monitorOnce (sh : Shared) (now : Time) (calls : PassCalls) :
    (monitorOnce now calls).wp (fun launches sh' => Turns sh sh' launches)
      (fun _ sh' => ∃ l, Turns sh sh' l ∧ (PassSafe sh now calls → l = [])) sh := by
  simp only [monitorOnce, wp_bind, wp_get, wp_ite, wp_pure, wp_queryAll]
  refine ⟨fun _ => .refl sh, fun _ => ⟨fun _ => ?_, fun _ _ => ⟨[], .refl sh, fun _ => rfl⟩⟩⟩
  refine wp_mono (turns_monitorLoop sh.states.keys_nodup fun _ _ => ⟨rfl, rfl⟩)
    (fun r sh' ⟨ht, hm⟩ => ?_) fun _ sh' ⟨_, l, ht, hl⟩ => ⟨l, ht, fun hsafe => hl hsafe.1⟩
  simp only [wp_saveAll]
  refine ⟨fun hc => ⟨fun _ => ht, fun hsave => ⟨_, ht, fun hsafe => ?_⟩⟩, fun _ => ht⟩
  by_contra hne
  rw [hsafe.2 (hm hne).2] at hsave
  exact absurd hsave (by simp)

theorem turns_cleanupLoop (active : List Text) (remove : PublicKey → Outcome) :
    ∀ (keys : List PublicKey) (sh : Shared), (cleanupLoop active remove keys).wp
      (fun _ sh' => Turns sh sh' []) (fun _ sh' => Turns sh sh' []) sh
  | [], sh => .refl sh
  | k :: ks, sh => by
    rw [cleanupLoop, wp_bind, wp_onKey]
    refine wp_mono (keeps_turn_cleanupPeer (decide (k.1 ∈ active)) (remove k) _ (.refl (sh.slot k)))
      (fun r sl ht => ?_) fun _ sl ht => Turns.put none ht
    rw [wp_bind]
    exact wp_mono (turns_cleanupLoop active remove ks (sh.put k sl))
      (fun _ _ h => (Turns.put none ht).trans h)
      fun _ _ h => (Turns.put none ht).trans h

theorem turns_cleanupInitiatorStates (sh : Shared) (active : List Text) (calls : PassCalls) :
    (cleanupInitiatorStates active calls).wp (fun _ sh' => Turns sh sh' [])
      (fun _ sh' => Turns sh sh' []) sh := by
  simp only [cleanupInitiatorStates, wp_bind, wp_get, wp_queryAll]
  refine ⟨fun _ => ?_, fun _ _ => .refl sh⟩
  refine wp_mono (turns_cleanupLoop active calls.remove sh.states.keys sh) (fun changed sh' h => ?_)
    fun _ _ h => h
  rw [wp_ite, wp_saveAll, wp_pure]
  exact ⟨fun _ => ⟨fun _ => h, fun _ => h⟩, fun _ => h⟩

/-! ### The steps of the machine -/

/-- The step keeps every launch it decides: the `save_state` that ends an offer which starts a probe
    succeeds, and so do, in a pass of the monitor, the calls after the first mark. -/
def LaunchSafe (w : World) : Label → Prop
  | .offer env data controller calls => ∀ o, readOffer env data controller = .ok o →
    OfferMarks o (w.shared.states.get? o.key) (w.shared.wg.get? o.key) → calls.finalSave = true
  | .monitor now calls => PassSafe w.shared now calls
  | _ => True

/-- A step of a worker. -/
structure WorkerStep (w : World) (i : ℕ) (t : Thread) (w' : World) (next : Next) (sl : Slot) : Prop where
  thread : w.threads[i]? = some t
  running : t.pc ≠ .finished
  turn : WorkerTurn t.generation t.pc (w.shared.slot t.key) next sl
  cleaned : t.pc = .cleanup → Cleaned t.generation t.mode (w.shared.slot t.key) sl
  shared : w'.shared = w.shared.put t.key sl
  pending : w'.pending = w.pending
  threads : w'.threads = w.threads.set i { t with pc := next.pc } ++
    (next.confirm.map (World.confirmThread t)).toList

/-- The step is one of a worker. -/
def Label.isWorker : Label → Bool
  | .worker .. => true
  | _ => false

/-- What a step of the machine does: it turns entries and launches, it makes a launch, or it is a step
    of a worker. -/
inductive Stepped (w : World) (l : Label) (w' : World) : Prop
  | turns (launches kept : List (PublicKey × ℕ)) (turns : Turns w.shared w'.shared launches)
      (threads : w'.threads = w.threads) (pending : w'.pending = kept ++ w.pending)
      (kept_eq : kept = launches ∨ kept = []) (safe : LaunchSafe w l → kept = launches)
      (outside : l.isWorker = false)
  | launch (i : ℕ) (launch : PublicKey × ℕ) (mem : w.pending[i]? = some launch)
      (shared : w'.shared = w.shared) (pending : w'.pending = w.pending.eraseIdx i)
      (threads : w'.threads = w.threads ++ [World.probeThread launch])
  | worker (i : ℕ) (calls : WorkerCalls) (t : Thread) (next : Next) (sl : Slot)
      (label : l = .worker i calls) (step : WorkerStep w i t w' next sl)
      (ran : (t.step calls).run (w.shared.slot t.key) = (.ok next, sl))

theorem stepped_still {w w' : World} {l : Label} (hs : w'.shared.states = w.shared.states)
    (hl : w'.shared.lastGeneration = w.shared.lastGeneration) (hp : w'.pending = w.pending)
    (ht : w'.threads = w.threads) (ho : l.isWorker = false) : Stepped w l w' :=
  .turns [] [] (.congr hs hl) ht hp (.inl rfl) (fun _ => rfl) ho

theorem stepped_offer (w : World) (env : OfferEnv) (data : Json) (controller : Controller)
    (calls : OfferCalls) :
    Stepped w (.offer env data controller calls) (w.offer env data controller calls).2 := by
  unfold World.offer
  cases ho : readOffer env data controller with
  | error e => exact stepped_still rfl rfl rfl rfl rfl
  | ok o =>
    have h : (onKey o.key (offerSection o calls)).wp
        (fun reply sh => Turns w.shared sh (reply.launch o.key))
        (fun _ sh => ∃ l, Turns w.shared sh l ∧
          (LaunchSafe w (.offer env data controller calls) → l = [])) w.shared := by
      refine wp_onKey.mpr (wp_mono (turn_offerSection o calls (w.shared.slot o.key))
        (fun reply sl ht => ?_) fun _ sl ht => ?_)
      · have := Turns.put _ ht
        cases reply with
        | staleSession => exact this
        | accepted launch => cases launch <;> exact this
      · rcases ht with ht | ⟨⟨hf, hm⟩, g, ht⟩
        · exact ⟨_, Turns.put none ht, fun _ => rfl⟩
        · refine ⟨_, Turns.put (some g) ht, fun hsafe => ?_⟩
          exact absurd (hsafe o ho hm) (by simp [hf])
    unfold Raising.wp at h
    simp only [Raising.run]
    generalize onKey o.key (offerSection o calls) w.shared = r at h ⊢
    rcases r with ⟨_ | reply, sh⟩
    · obtain ⟨l, ht, hl⟩ := h
      exact .turns l [] ht rfl rfl (.inr rfl) (fun hsafe => (hl hsafe).symm) rfl
    · exact .turns _ _ h rfl rfl (.inl rfl) (fun _ => rfl) rfl

theorem stepped_remove (w : World) (listenAddress : Text) (data : Json) (now : Time)
    (calls : RemoveCalls) :
    Stepped w (.remove listenAddress data now calls) (w.remove listenAddress data now calls).2 := by
  unfold World.remove
  cases hr : readRemoval listenAddress data with
  | error e => exact stepped_still rfl rfl rfl rfl rfl
  | ok r =>
    have h : Keeps (Turn (w.shared.slot r.key)) (removeSection r now calls) :=
      keeps_turn_removeSection r now calls
    exact .turns [] [] (Turns.put none (h.run (.refl _))) rfl rfl (.inl rfl) (fun _ => rfl) rfl

theorem stepped_monitor (w : World) (now : Time) (calls : PassCalls) :
    Stepped w (.monitor now calls) (w.monitor now calls) := by
  unfold World.monitor
  have h := turns_monitorOnce w.shared now calls
  unfold Raising.wp at h
  simp only [Raising.run]
  generalize monitorOnce now calls w.shared = r at h ⊢
  rcases r with ⟨_ | launches, sh⟩
  · obtain ⟨l, ht, hl⟩ := h
    exact .turns l [] ht rfl rfl (.inr rfl) (fun hsafe => (hl hsafe).symm) rfl
  · exact .turns _ _ h rfl rfl (.inl rfl) (fun _ => rfl) rfl

theorem stepped_cleanupInitiator (w : World) (active : List Text) (calls : PassCalls) :
    Stepped w (.cleanupInitiator active calls)
      { w with shared := ((cleanupInitiatorStates active calls).run w.shared).2 } := by
  have h := turns_cleanupInitiatorStates w.shared active calls
  unfold Raising.wp at h
  simp only [Raising.run]
  generalize cleanupInitiatorStates active calls w.shared = r at h ⊢
  rcases r with ⟨_ | _, sh⟩ <;> exact .turns [] [] h rfl rfl (.inl rfl) (fun _ => rfl) rfl

theorem stepped_worker {w : World} {i : ℕ} {t : Thread} (calls : WorkerCalls)
    (ht : w.threads[i]? = some t) (hpc : t.pc ≠ .finished) :
    Stepped w (.worker i calls) (w.worker i t calls) := by
  unfold World.worker
  have h := turn_threadStep t calls (w.shared.slot t.key)
  unfold Raising.wp at h
  simp only [Raising.run, onKey]
  generalize hr : t.step calls (w.shared.slot t.key) = r at h ⊢
  rcases r with ⟨_ | next, sl⟩
  · exact h.elim
  · exact .worker i calls t next sl rfl ⟨ht, hpc, h.1, h.2, rfl, rfl, rfl⟩ hr

/-- Every step of the machine is one of the three kinds. -/
theorem stepped {w w' : World} {l : Label} (h : machine.step w l = some w') : Stepped w l w' := by
  cases l with
  | offer env data controller calls => exact Option.some.inj h ▸ stepped_offer ..
  | remove listenAddress data now calls => exact Option.some.inj h ▸ stepped_remove ..
  | monitor now calls => exact Option.some.inj h ▸ stepped_monitor ..
  | cleanupInitiator active calls => exact Option.some.inj h ▸ stepped_cleanupInitiator ..
  | launch i =>
    obtain ⟨launch, hi, rfl⟩ := launch_step h
    exact .launch i launch hi rfl rfl rfl
  | worker i calls =>
    obtain ⟨t, ht, hpc, rfl⟩ := worker_step h
    exact stepped_worker calls ht hpc
  | handshake k at_ =>
    obtain ⟨_, _, _, rfl⟩ := handshake_step h
    exact stepped_still rfl rfl rfl rfl rfl
  | roam k endpoint =>
    obtain ⟨_, _, rfl⟩ := roam_step h
    exact stepped_still rfl rfl rfl rfl rfl

end Agent
