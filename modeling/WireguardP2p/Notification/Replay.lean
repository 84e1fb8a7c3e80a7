import WireguardP2p.Lib.Runs
import WireguardP2p.Notification.Signature

/-! Notifications on their way. The coordinator signs what it posts; anybody may call the agent with
    anything. Where only `signed_post` computes signatures, a call is accepted only as what was signed,
    near its time, and once: within the time in which it is not expired a nonce can leave the cache
    only after as many others were accepted as the cache holds. -/

namespace Notification
open Ipaddress Python Runs

/-- What was signed so far, and the agent's cache; the clock is the last reading of a call. -/
structure World where
  signed : List Signed
  seen : Seen
  clock : ℚ

inductive Label
  | post (notice : Notice) (payload : Payload) (time : ℤ) (token : Token)
  /-- A call, with the reading of the agent's clock. -/
  | verify (c : Call) (now : ℚ)

def World.start (clock : ℚ) : World := ⟨[], .empty, clock⟩

variable (hexdigest : Bytes → Text)

/-- The result of a call and the cache after it. -/
def World.verify (w : World) (c : Call) (now : ℚ) : Except Raised Json × Seen :=
  (verifySignedNotification hexdigest c now).run w.seen

def World.step (w : World) : Label → Option World
  | .post notice payload time token =>
    some { w with signed := signedPost notice payload time token :: w.signed }
  | .verify c now =>
    if now < w.clock then none else some { w with seen := (w.verify hexdigest c now).2, clock := now }

def machine : Machine World Label := ⟨World.step hexdigest⟩

/-- The call returns a value. -/
def World.accepts (w : World) (c : Call) (now : ℚ) : Bool := (w.verify hexdigest c now).1.toBool

/-- The call is about this notification. -/
def Call.Carries (c : Call) (s : Signed) : Prop :=
  upper c.method = s.method ∧ c.path = s.path ∧ c.timestamp = some s.timestamp ∧
    c.nonce.map lower = some s.nonce ∧ c.body = s.body

instance (c : Call) (s : Signed) : Decidable (c.Carries s) :=
  inferInstanceAs (Decidable (_ ∧ _))

/-- The call, if this step is one that is accepted. -/
def World.acceptedCall (w : World) : Label → List Call
  | .verify c now => if w.accepts hexdigest c now then [c] else []
  | .post .. => []

/-- The accepted calls of a run. -/
def acceptedCalls : World → List Label → List Call
  | _, [] => []
  | w, l :: ls =>
    match w.step hexdigest l with
    | some w' => w.acceptedCall hexdigest l ++ acceptedCalls w' ls
    | none => []

/-- The nonces of the accepted calls, as they are looked up. -/
def acceptedNonces (w : World) (ls : List Label) : Finset Text :=
  ((acceptedCalls hexdigest w ls).filterMap fun c => c.nonce.map lower).toFinset

/-- The header fields hold no line break. -/
structure Call.Headers (c : Call) : Prop where
  method : '\n' ∉ c.method
  path : '\n' ∉ c.path
  timestamp : ∀ t ∈ c.timestamp, '\n' ∉ t
  nonce : ∀ t ∈ c.nonce, '\n' ∉ t

/-- What the signature of a call is checked against, with the text of its nonce. -/
def Call.payload (c : Call) (nonce : Text) : Bytes :=
  signaturePayload c.method c.path (c.timestamp.getD []) (lower nonce) c.body

/-- A signature that fits the call is that of a notification signed before: only `signed_post` computes
    signatures. -/
def Call.Authentic (c : Call) (signed : List Signed) : Prop :=
  ∀ nonce ∈ c.nonce, c.signature.getD [] = hexdigest (c.payload nonce) →
    ∃ s ∈ signed, s.payload = c.payload nonce

/-- The calls of a run: any, but for these two conditions. -/
def Ideal (w : World) : Label → Prop
  | .verify c _ => c.Headers ∧ c.Authentic hexdigest w.signed
  | .post .. => True

/-! ### One call -/

section Step
variable {hexdigest : Bytes → Text} {w w' : World} {l : Label} {c : Call} {now : ℚ} {s : Signed}

/-- What was signed is well formed; the cache is in order and within its bound. -/
structure Sound (w : World) : Prop where
  headers : ∀ s ∈ w.signed, s.Headers
  method : ∀ s ∈ w.signed, upper s.method = s.method
  body : ∀ s ∈ w.signed, ∃ v, readBody s.body = .ok v
  ordered : SeenCache.Ordered w.seen w.clock
  bounded : w.seen.entries.length ≤ maxSeenNonces

/-- What a call does to the cache. -/
inductive Called (hexdigest : Bytes → Text) (w : World) (c : Call) (now : ℚ) : Prop
  | kept (hacc : w.accepts hexdigest c now = false) (hseen : (w.verify hexdigest c now).2 = w.seen)
  | purged (hacc : w.accepts hexdigest c now = false)
      (hseen : (w.verify hexdigest c now).2 = SeenCache.purge (now - nonceTtl) w.seen)
  | stored (hacc : w.accepts hexdigest c now = true) (s : Signed) (hs : s ∈ w.signed)
      (hc : c.Carries s)
      (htime : ∃ n, intText 10 s.timestamp = some n ∧ |now - n| ≤ notificationMaxSkew)
      (hnew : s.nonce ∉ (SeenCache.purge (now - nonceTtl) w.seen).keys)
      (hseen : (w.verify hexdigest c now).2 =
        SeenCache.store maxSeenNonces s.nonce now (SeenCache.purge (now - nonceTtl) w.seen))

theorem toLower_newline {d : Char} (h : d.toLower = '\n') : d = '\n' := by
  rw [Char.toLower] at h
  split at h
  · rename_i hd
    have hval := congrArg Char.toNat h
    have hlow := hd.1
    have hhigh := hd.2
    simp [UInt32.le_iff_toNat_le] at hval hlow hhigh
    omega
  · exact h

/-- A call that passes its checks carries a notification that was signed. -/
theorem Checked.carries {nonce : Text} (h : Checked hexdigest c now nonce) (hw : Sound w)
    (hi : Ideal hexdigest w (.verify c now)) : ∃ s ∈ w.signed, c.Carries s ∧ s.nonce = nonce ∧
      ∃ n, intText 10 s.timestamp = some n ∧ |now - n| ≤ notificationMaxSkew := by
  obtain ⟨t, ht, rfl⟩ := h.text
  obtain ⟨u, n, hu, hn, hskew⟩ := h.timestamp
  obtain ⟨s, hs, hp⟩ := hi.2 t ht h.signature
  have hlower : '\n' ∉ lower t := by
    rw [lower, List.mem_map]
    rintro ⟨d, hd, hnl⟩
    exact hi.1.nonce t ht (toLower_newline hnl ▸ hd)
  obtain ⟨hm, hpath, htime, hnonce, hbody⟩ := signaturePayload_injective (hw.headers s hs).method
    hi.1.method (hw.headers s hs).path hi.1.path (hw.headers s hs).timestamp
    (by rw [hu]; exact hi.1.timestamp u hu) (hw.headers s hs).nonce hlower hp
  rw [hu, Option.getD_some] at htime
  refine ⟨s, hs, ⟨hm ▸ hw.method s hs, hpath.symm, htime ▸ hu, ?_, hbody.symm⟩, hnonce, n,
    htime ▸ hn, hskew⟩
  rw [ht, Option.map_some, hnonce]

theorem called (hw : Sound w) (hi : Ideal hexdigest w (.verify c now)) :
    Called hexdigest w c now := by
  have hv : Verified hexdigest c now w.seen (w.verify hexdigest c now) := verified ..
  generalize hr : w.verify hexdigest c now = r at hv
  have hacc : w.accepts hexdigest c now = r.1.toBool := congrArg (fun r => r.1.toBool) hr
  cases hv with
  | refused e => exact .kept hacc (congrArg Prod.snd hr)
  | replayed e nonce hc hm => exact .purged hacc (congrArg Prod.snd hr)
  | stored nonce hc hm =>
    obtain ⟨s, hs, hcar, rfl, htime⟩ := hc.carries hw hi
    obtain ⟨v, hv⟩ := hw.body s hs
    refine .stored ?_ s hs hcar htime hm (congrArg Prod.snd hr)
    rw [hacc, hcar.2.2.2.2, hv]
    rfl

theorem step_verify (hs : (machine hexdigest).step w (.verify c now) = some w') :
    w.clock ≤ now ∧ w' = { w with seen := (w.verify hexdigest c now).2, clock := now } := by
  have hstep : (if now < w.clock then none
      else some { w with seen := (w.verify hexdigest c now).2, clock := now }) = some w' := hs
  split at hstep
  · cases hstep
  · rename_i hclock
    exact ⟨not_lt.mp hclock, (Option.some.inj hstep).symm⟩

theorem Sound.step (hw : Sound w) (hi : Ideal hexdigest w l)
    (hs : (machine hexdigest).step w l = some w') : Sound w' := by
  cases l with
  | post notice payload time token =>
    obtain rfl := Option.some.inj hs
    refine ⟨?_, ?_, ?_, hw.ordered, hw.bounded⟩ <;> rw [List.forall_mem_cons]
    · exact ⟨signedPost_headers .., hw.headers⟩
    · exact ⟨show upper "POST".toList = "POST".toList by decide +kernel, hw.method⟩
    · exact ⟨⟨_, readBody_signedPost ..⟩, hw.body⟩
  | verify c now =>
    obtain ⟨hclock, rfl⟩ := step_verify hs
    have hord := hw.ordered.mono hclock
    have hlen := (SeenCache.length_purge_le (now - nonceTtl) w.seen).trans hw.bounded
    refine ⟨hw.headers, hw.method, hw.body, ?_, ?_⟩
    · cases called hw hi with
      | kept _ hseen => exact hseen ▸ hord
      | purged _ hseen => exact hseen ▸ hord.purge _
      | stored _ s _ _ _ hnew hseen => exact hseen ▸ (hord.purge _).store hnew
    · cases called hw hi with
      | kept _ hseen => exact hseen ▸ hw.bounded
      | purged _ hseen => exact hseen ▸ hlen
      | stored _ s _ _ _ hnew hseen =>
        exact hseen ▸ SeenCache.length_store_le (hord.purge _) hnew (by decide) hlen

theorem sound_start (clock : ℚ) : Sound (.start clock) where
  headers := fun _ h => absurd h List.not_mem_nil
  method := fun _ h => absurd h List.not_mem_nil
  body := fun _ h => absurd h List.not_mem_nil
  ordered := ⟨List.Pairwise.nil, fun _ h => absurd h List.not_mem_nil⟩
  bounded := Nat.zero_le _

/-! ### A notification accepted before -/

/-- A notification accepted at `t`, these nonces since: its time is over, or as many others were
    accepted as the cache holds, or its nonce is in the cache. -/
def Kept (s : Signed) (t : ℚ) (js : Finset Text) (w : World) : Prop :=
  t + nonceTtl < w.clock ∨ maxSeenNonces ≤ (js.erase s.nonce).card ∨
    SeenCache.Holds w.seen s.nonce t js

theorem Kept.mono {t : ℚ} {js is : Finset Text} (h : Kept s t js w) (hle : w.clock ≤ now)
    (hsub : js ⊆ is) : Kept s t is { w with clock := now } := by
  rcases h with h | h | h
  · exact .inl (h.trans_le hle)
  · exact .inr (.inl (h.trans (Finset.card_le_card (Finset.erase_subset_erase _ hsub))))
  · exact .inr (.inr (h.mono hsub))

theorem Kept.purge {t : ℚ} {js : Finset Text} (h : Kept s t js { w with clock := now }) :
    Kept s t js { w with seen := SeenCache.purge (now - nonceTtl) w.seen, clock := now } := by
  rcases h with h | h | h
  · exact .inl h
  · exact .inr (.inl h)
  · by_cases ht : t + nonceTtl < now
    · exact .inl ht
    · exact .inr (.inr (h.purge (by linarith)))

theorem acceptedNonces_cons {ls : List Label} (hs : (machine hexdigest).step w l = some w') :
    acceptedNonces hexdigest w (l :: ls) =
      ((w.acceptedCall hexdigest l).filterMap fun c => c.nonce.map lower).toFinset ∪
        acceptedNonces hexdigest w' ls := by
  have hs' : w.step hexdigest l = some w' := hs
  rw [acceptedNonces, acceptedCalls, hs']
  simp only [List.filterMap_append, List.toFinset_append, acceptedNonces]

theorem Kept.step {t : ℚ} {js : Finset Text} (hw : Sound w) (hi : Ideal hexdigest w l)
    (hs : (machine hexdigest).step w l = some w') (h : Kept s t js w) :
    Kept s t (js ∪ ((w.acceptedCall hexdigest l).filterMap fun c => c.nonce.map lower).toFinset)
      w' := by
  cases l with
  | post notice payload time token =>
    obtain rfl := Option.some.inj hs
    exact h.mono le_rfl Finset.subset_union_left
  | verify c now =>
    obtain ⟨hclock, rfl⟩ := step_verify hs
    have hmono := h.mono hclock
      (@Finset.subset_union_left _ _ _ ((w.acceptedCall hexdigest (.verify c now)).filterMap
        fun c => c.nonce.map lower).toFinset)
    cases called hw hi with
    | kept _ hseen => exact hseen ▸ hmono
    | purged _ hseen => exact hseen ▸ hmono.purge
    | stored hacc s' _ hc _ hnew hseen =>
      rw [hseen]
      have hnonces : ((w.acceptedCall hexdigest (.verify c now)).filterMap
          fun c => c.nonce.map lower).toFinset = {s'.nonce} := by
        rw [World.acceptedCall, if_pos hacc, List.filterMap_cons, hc.2.2.2.1]
        rfl
      rw [hnonces, Finset.union_comm, ← Finset.insert_eq]
      rcases (h.mono hclock (Finset.Subset.refl _)).purge with h | h | h
      · exact .inl h
      · refine .inr (.inl (h.trans (Finset.card_le_card (Finset.erase_subset_erase _ ?_))))
        exact Finset.subset_insert ..
      · rcases h.store ((hw.ordered.mono hclock).purge _) hnew with h | h
        · exact .inr (.inl h)
        · exact .inr (.inr h)

theorem Kept.run {t : ℚ} : ∀ {ls : List Label} {w w' : World} {js : Finset Text}, Sound w →
    (machine hexdigest).Along (Ideal hexdigest) w ls → (machine hexdigest).run w ls = some w' →
    Kept s t js w → Kept s t (js ∪ acceptedNonces hexdigest w ls) w'
  | [], w, w', js, _, _, hrun, h => by
      obtain rfl := Option.some.inj hrun
      simpa [acceptedNonces, acceptedCalls] using h
  | l :: ls, w, w', js, hw, ⟨hi, his⟩, hrun, h => by
      obtain ⟨u, hu, hut⟩ := ((machine hexdigest).run_cons).mp hrun
      rw [acceptedNonces_cons hu, ← Finset.union_assoc]
      exact Kept.run (hw.step hi hu) (his u hu) hut (h.step hw hi hu)

/-- Accepted at `t`, a notification is kept from being accepted again. -/
theorem kept_accepted (hw : Sound w) (hi : Ideal hexdigest w (.verify c now))
    (hs : (machine hexdigest).step w (.verify c now) = some w')
    (hacc : w.accepts hexdigest c now = true) (hc : c.Carries s) : Kept s now ∅ w' := by
  obtain ⟨hclock, rfl⟩ := step_verify hs
  have hcases := called hw hi
  cases hcases with
  | kept hrej | purged hrej =>
    rw [hacc] at hrej
    cases hrej
  | stored _ s' _ hc' _ hnew hseen =>
    have hnonce : s'.nonce = s.nonce :=
      Option.some.inj (hc'.2.2.2.1.symm.trans hc.2.2.2.1)
    rw [hseen]
    exact .inr (.inr (hnonce ▸ SeenCache.holds_store ((hw.ordered.mono hclock).purge _) hnew))

/-- What is accepted again was pushed out by others. -/
theorem Kept.accepted {t : ℚ} {js : Finset Text} (h : Kept s t js w) (hw : Sound w)
    (hi : Ideal hexdigest w (.verify c now)) (hclock : w.clock ≤ now)
    (hacc : w.accepts hexdigest c now = true) (hc : c.Carries s)
    (ht : ∃ n, intText 10 s.timestamp = some n ∧ |t - n| ≤ notificationMaxSkew) :
    maxSeenNonces ≤ (js.erase s.nonce).card := by
  have hcases := called hw hi
  cases hcases with
  | kept hrej | purged hrej =>
    rw [hacc] at hrej
    cases hrej
  | stored _ s' _ hc' htime hnew _ =>
    have hnonce : s'.nonce = s.nonce := Option.some.inj (hc'.2.2.2.1.symm.trans hc.2.2.2.1)
    have htext : s'.timestamp = s.timestamp := Option.some.inj (hc'.2.2.1.symm.trans hc.2.2.1)
    obtain ⟨n, hn, hskew⟩ := ht
    obtain ⟨m, hm, hskew'⟩ := htime
    rw [htext, hn, Option.some.injEq] at hm
    subst hm
    -- both within the skew of one timestamp: not further apart than the nonce is kept
    have hnear : now ≤ t + nonceTtl := by
      rw [abs_le] at hskew hskew'
      simp only [notificationMaxSkew, nonceTtl] at *
      linarith [hskew.1, hskew'.2]
    rcases (h.mono hclock (Finset.Subset.refl _)).purge with h | h | h
    · exact absurd hnear (not_le.mpr h)
    · exact h
    · exact absurd (hnonce ▸ h.mem) hnew

theorem Sound.run {ls : List Label} (hw : Sound w)
    (hok : (machine hexdigest).Along (Ideal hexdigest) w ls)
    (hrun : (machine hexdigest).run w ls = some w') : Sound w' :=
  (machine hexdigest).run_invariant (fun _ _ _ hi hw hs => hw.step hi hs) hw hok hrun

theorem accepted_carries (hw : Sound w) (hi : Ideal hexdigest w (.verify c now))
    (hacc : w.accepts hexdigest c now = true) : ∃ s ∈ w.signed, c.Carries s ∧
      ∃ n, intText 10 s.timestamp = some n ∧ |now - n| ≤ notificationMaxSkew := by
  have hcases := called hw hi
  cases hcases with
  | kept hrej | purged hrej =>
    rw [hacc] at hrej
    cases hrej
  | stored _ s hs hc htime => exact ⟨s, hs, hc, htime⟩

theorem rejected_seen (hw : Sound w) (hi : Ideal hexdigest w (.verify c now))
    (hrej : w.accepts hexdigest c now = false) : (w.verify hexdigest c now).2 = w.seen ∨
      (w.verify hexdigest c now).2 = SeenCache.purge (now - nonceTtl) w.seen := by
  have hcases := called hw hi
  cases hcases with
  | kept _ hseen => exact .inl hseen
  | purged _ hseen => exact .inr hseen
  | stored hacc =>
    rw [hacc] at hrej
    cases hrej

/-- A notification accepted in the middle of a run and again after it. -/
theorem accepted_again {w₁ w₂ : World} {c₁ : Call} {now₁ : ℚ} {ls : List Label} (hw : Sound w₁)
    (hok : (machine hexdigest).Along (Ideal hexdigest) w₁ (.verify c₁ now₁ :: ls))
    (hs : (machine hexdigest).step w₁ (.verify c₁ now₁) = some w₂)
    (hrun : (machine hexdigest).run w₂ ls = some w) (hacc₁ : w₁.accepts hexdigest c₁ now₁ = true)
    (hc₁ : c₁.Carries s) (hi : Ideal hexdigest w (.verify c now)) (hclock : w.clock ≤ now)
    (hacc : w.accepts hexdigest c now = true) (hc : c.Carries s) :
    maxSeenNonces ≤ ((acceptedNonces hexdigest w₂ ls).erase s.nonce).card := by
  obtain ⟨hi₁, hrest⟩ := hok
  have hw₂ := hw.step hi₁ hs
  obtain ⟨s', _, hc', n, hn, hskew⟩ := accepted_carries hw hi₁ hacc₁
  have htext : s'.timestamp = s.timestamp := Option.some.inj (hc'.2.2.1.symm.trans hc₁.2.2.1)
  have hkept := (kept_accepted hw hi₁ hs hacc₁ hc₁).run hw₂ (hrest w₂ hs) hrun
  rw [Finset.empty_union] at hkept
  exact hkept.accepted (hw₂.run (hrest w₂ hs) hrun) hi hclock hacc hc ⟨n, htext ▸ hn, hskew⟩

end Step

/-- Over calls whose clock does not go back: an accepted call carries, near its time, what was signed; a
    notification is accepted again only after as many others as the cache holds; a rejected call
    changes the cache at most by what is expired; and the cache stays within its bound. -/
theorem accepted_once {clock : ℚ} {ls : List Label} {w : World}
    (hok : (machine hexdigest).Along (Ideal hexdigest) (.start clock) ls)
    (hrun : (machine hexdigest).run (.start clock) ls = some w) :
    w.seen.entries.length ≤ maxSeenNonces ∧
      ∀ c now, Ideal hexdigest w (.verify c now) → w.clock ≤ now →
        (w.accepts hexdigest c now = false → (w.verify hexdigest c now).2 = w.seen ∨
          (w.verify hexdigest c now).2 = SeenCache.purge (now - nonceTtl) w.seen) ∧
        (w.accepts hexdigest c now = true →
          (∃ s ∈ w.signed, c.Carries s ∧
            ∃ n, intText 10 s.timestamp = some n ∧ |now - n| ≤ notificationMaxSkew) ∧
          ∀ s ls₁ c₁ now₁ ls₂ w₁ w₂, ls = ls₁ ++ .verify c₁ now₁ :: ls₂ →
            (machine hexdigest).run (.start clock) ls₁ = some w₁ →
            (machine hexdigest).step w₁ (.verify c₁ now₁) = some w₂ →
            w₁.accepts hexdigest c₁ now₁ = true → c₁.Carries s → c.Carries s →
            maxSeenNonces ≤ ((acceptedNonces hexdigest w₂ ls₂).erase s.nonce).card) := by
  have hw := (sound_start clock).run hok hrun
  refine ⟨hw.bounded, fun c now hi hclock => ⟨rejected_seen hw hi, fun hacc => ?_⟩⟩
  refine ⟨accepted_carries hw hi hacc, ?_⟩
  intro s ls₁ c₁ now₁ ls₂ w₁ w₂ hls hrun₁ hs hacc₁ hc₁ hc
  subst hls
  obtain ⟨hok₁, hok₂⟩ := hok.split hrun₁
  obtain ⟨v, hv, hrest⟩ := ((machine hexdigest).run_append).mp hrun
  obtain rfl := Option.some.inj (hrun₁.symm.trans hv)
  obtain ⟨u, hu, hrun₂⟩ := ((machine hexdigest).run_cons).mp hrest
  obtain rfl := Option.some.inj (hs.symm.trans hu)
  exact accepted_again ((sound_start clock).run hok₁ hrun₁) hok₂ hs hrun₂ hacc₁ hc₁ hi hclock hacc hc

/-! ### A notification in a run -/

/-- The call made with what was sent, but for the method. -/
def Signed.call (s : Signed) (method : Text) : Call :=
  ⟨method, s.path, some s.timestamp, some s.nonce, some (hexdigest s.payload), s.body⟩

def emptyPayload : Payload := ⟨.obj [], List.nodup_nil, trivial⟩

/-- A removal that was signed at 100. -/
def removal : Signed := signedPost .remove emptyPayload 100 ⟨List.replicate 16 0, rfl⟩

/-- The removal was signed, and nothing was accepted yet. -/
def removalSigned : World := ⟨[removal], .empty, 100⟩

theorem removal_headers : removal.Headers :=
  signedPost_headers .remove emptyPayload 100 ⟨List.replicate 16 0, rfl⟩

theorem removal_body : readBody removal.body = .ok (Json.obj []).sortKeys :=
  readBody_signedPost .remove emptyPayload 100 ⟨List.replicate 16 0, rfl⟩

theorem removal_ideal {method : Text} (hline : '\n' ∉ method)
    (h : upper method = upper "POST".toList) {w : World} (hw : removal ∈ w.signed) (now : ℚ) :
    Ideal hexText w (.verify (removal.call hexText method) now) := by
  refine ⟨⟨hline, removal_headers.path, ?_, ?_⟩, ?_⟩
  · intro t ht
    exact Option.some.inj ht ▸ removal_headers.timestamp
  · intro t ht
    exact Option.some.inj ht ▸ removal_headers.nonce
  · intro nonce hn _
    obtain rfl := Option.some.inj hn
    have hlower : lower removal.nonce = removal.nonce := by decide +kernel
    refine ⟨removal, hw, ?_⟩
    rw [Call.payload, Signed.call, hlower, Signed.payload, signaturePayload, signaturePayload, h]
    rfl

theorem removal_accepted {method : Text} (h : checkNotification hexText (removal.call hexText method)
    101 = .ok removal.nonce) :
    removalSigned.accepts hexText (removal.call hexText method) 101 = true := by
  have hm : removal.nonce ∉ (SeenCache.purge (101 - nonceTtl) removalSigned.seen).keys :=
    List.not_mem_nil
  have hread : readBody (removal.call hexText method).body = .ok (Json.obj []).sortKeys :=
    removal_body
  rw [World.accepts, World.verify, verify_stored h hm, hread]
  rfl

/-- The removal posted, and a call with it. -/
def removalRun (method : Text) : List Label :=
  [.post .remove emptyPayload 100 ⟨List.replicate 16 0, rfl⟩,
    .verify (removal.call hexText method) 101]

/-- The removal is accepted once. -/
theorem accepted_once_removal :
    removalSigned.accepts hexText (removal.call hexText "POST".toList) 101 = true ∧
      ∃ w, (machine hexText).run (.start 100) (removalRun "POST".toList) = some w ∧
        w.accepts hexText (removal.call hexText "POST".toList) 102 = false := by
  have hacc : removalSigned.accepts hexText (removal.call hexText "POST".toList) 101 = true :=
    removal_accepted (by decide +kernel)
  have hline : '\n' ∉ "POST".toList := by decide
  have hcarries : (removal.call hexText "POST".toList).Carries removal :=
    ⟨by decide +kernel, rfl, rfl, congrArg some (show lower removal.nonce = removal.nonce by
      decide +kernel), rfl⟩
  refine ⟨hacc, _, rfl, ?_⟩
  rw [Bool.eq_false_iff]
  intro hagain
  have hok : (machine hexText).Along (Ideal hexText) (.start 100) (removalRun "POST".toList) := by
    refine ⟨trivial, fun u hu => ?_⟩
    obtain rfl := Option.some.inj hu
    exact ⟨removal_ideal hline rfl (List.mem_singleton_self _) 101, fun _ _ => trivial⟩
  have hpushed := (((accepted_once hexText hok rfl).2 _ _
    (removal_ideal hline rfl (List.mem_singleton_self _) 102) (by decide +kernel)).2 hagain).2
    removal [_] _ 101 [] removalSigned _ rfl rfl rfl hacc hcarries hcarries
  have hnone (w : World) : (acceptedNonces hexText w []).erase removal.nonce = ∅ := rfl
  rw [hnone, Finset.card_empty] at hpushed
  exact absurd hpushed (by decide)

/-- A call is accepted under a method that nothing was signed with: case does not count. -/
theorem accepts_method_case :
    ∃ (ls : List Label) (w : World) (c : Call) (now : ℚ),
      (machine hexText).Along (Ideal hexText) (.start 100) ls ∧
      (machine hexText).run (.start 100) ls = some w ∧ Ideal hexText w (.verify c now) ∧
      w.clock ≤ now ∧ w.accepts hexText c now = true ∧ ∀ s ∈ w.signed, c.method ≠ s.method := by
  refine ⟨[.post .remove emptyPayload 100 ⟨List.replicate 16 0, rfl⟩], removalSigned,
    removal.call hexText "post".toList, 101, ⟨trivial, fun _ _ => trivial⟩, rfl,
    removal_ideal (by decide) (by decide +kernel) (List.mem_singleton_self _) 101, ?_,
    removal_accepted (by decide +kernel), ?_⟩
  · decide +kernel
  · intro s hs
    obtain rfl := List.mem_singleton.mp hs
    exact (by decide : "post".toList ≠ "POST".toList)

end Notification
