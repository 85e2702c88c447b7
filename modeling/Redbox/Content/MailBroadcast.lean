import Redbox.Content.InternalMails

/-! Sending an internal mail is all or nothing: where a call fails, what was created before
is deleted again. -/
namespace Redbox
open Interleaving

/-- The calls of the catch blocks. -/
def InternalMailRequest.compensates : InternalMailRequest → Bool
  | .deleteShared _ | .deleteInternalMail _ => true
  | .mail (.mailById _) | .mail (.deleteMail _) => true
  | .mail (.backend (.s3 _ (.deleteObject _))) => true
  | _ => false

/-- A call fails without effect; those of the catch blocks that then run do not. -/
def oneFault : InternalMailRules where
  starts := fun _ _ => true
  allows := fun _ _ q d => decide (d = .delivered) || (decide (d = .failed) && !q.compensates)
  drifts := fun _ _ => true

namespace MailBroadcast

/-- Names are drawn above those in use, and deliveries refer to mails that are there. -/
structure Consistent (w : InternalMailWorld) : Prop where
  users : (w.world.db.users.map (·.id)).Nodup
  mails : ∀ m ∈ w.world.db.mails, m.id < w.world.nextId
  internalMails : ∀ m ∈ w.internalMails, m.id < w.world.nextId
  deliveries : ∀ d ∈ w.deliveries, d.internalMailId < w.world.nextId
  attached : ∀ d ∈ w.deliveries, ∀ id, d.mailId = some id → ∃ m ∈ w.world.db.mails, m.id = id
  attachments : ∀ a ∈ w.attachments, a.internalMailId < w.world.nextId
  shared : ∀ key, (w.shared.lookup key).isSome = true → key < w.world.nextId

/-- What the call has created and not deleted. -/
structure Made where
  copies : List Mail
  row : Option InternalMail
  deliveries : List InternalMailDelivery
  attachments : List InternalMailAttachmentRow
  keys : List Id

def nothing : Made := ⟨[], none, [], [], []⟩

/-- The stores hold what they held at first and what the call has made. -/
structure Progress (w₀ : InternalMailWorld) (m : Made) (w : InternalMailWorld) : Prop where
  users : w.world.db.users = w₀.world.db.users
  mails : w.world.db.mails = m.copies ++ w₀.world.db.mails
  internalMails : w.internalMails = m.row.toList ++ w₀.internalMails
  deliveries : w.deliveries = m.deliveries ++ w₀.deliveries
  attachments : w.attachments = m.attachments ++ w₀.attachments
  shared : ∀ key, key ∉ m.keys → w.shared.lookup key = w₀.shared.lookup key
  next : w₀.world.nextId ≤ w.world.nextId
  copyIds : ∀ c ∈ m.copies, w₀.world.nextId ≤ c.id
  rowIds : ∀ r ∈ m.row, w₀.world.nextId ≤ r.id
  keyIds : ∀ key ∈ m.keys, w₀.world.nextId ≤ key
  ownDeliveries : ∀ d ∈ m.deliveries, m.row.map (·.id) = some d.internalMailId
  ownAttachments : ∀ a ∈ m.attachments, m.row.map (·.id) = some a.internalMailId
  attached : ∀ d ∈ m.deliveries, ∀ id, d.mailId = some id → ∃ c ∈ m.copies, c.id = id

variable {cfg : Config} {w₀ w : InternalMailWorld} {m : Made} {p : Nat} {q : InternalMailRequest}

theorem Progress.initial (w₀ : InternalMailWorld) : Progress w₀ nothing w₀ := by
  constructor <;> simp [nothing]

theorem Progress.tick (h : Progress w₀ m w) (n : Nat) : Progress w₀ m (w.tick n) :=
  ⟨h.users, h.mails, h.internalMails, h.deliveries, h.attachments, h.shared, h.next, h.copyIds,
    h.rowIds, h.keyIds,
    h.ownDeliveries, h.ownAttachments, h.attached⟩

/-- Deliveries whose mails are all there stay as they are. -/
theorem map_detach {ds : List InternalMailDelivery} {mails : List Mail}
    (h : ∀ d ∈ ds, ∀ id, d.mailId = some id → ∃ c ∈ mails, c.id = id) :
    (ds.map fun d => { d with mailId := d.mailId.filter fun id => mails.any (·.id == id) }) =
      ds := by
  refine (List.map_congr_left fun d hd => ?_).trans (List.map_id ds)
  cases hid : d.mailId with
  | none => rw [id, Option.filter_none, ← hid]
  | some i =>
    obtain ⟨c, hc, rfl⟩ := h d hd i hid
    have hany : mails.any (·.id == c.id) = true := List.any_eq_true.mpr ⟨c, hc, beq_self_eq_true _⟩
    rw [id, Option.filter_some, hany, if_pos rfl, ← hid]

/-- A call of the mail service that leaves the mails that are in use. -/
theorem Progress.mail (h : Progress w₀ m w) (hc : Consistent w₀) {world : World}
    {copies : List Mail} (husers : world.db.users = w.world.db.users)
    (hmails : world.db.mails = copies ++ w₀.world.db.mails) (hnext : w.world.nextId ≤ world.nextId)
    (hnew : ∀ c ∈ copies, w₀.world.nextId ≤ c.id) :
    Progress w₀ { m with
        copies := copies
        deliveries := m.deliveries.map fun d =>
          { d with mailId := d.mailId.filter fun id =>
            (copies ++ w₀.world.db.mails).any (·.id == id) } }
      { w with world := world, deliveries := w.detach world.db.mails } := by
  have hold : ∀ d ∈ w₀.deliveries, ∀ id, d.mailId = some id → ∃ c ∈ world.db.mails, c.id = id := by
    intro d hd id hid
    obtain ⟨c, hc, rfl⟩ := hc.attached d hd id hid
    exact ⟨c, hmails ▸ List.mem_append_right _ hc, rfl⟩
  refine ⟨husers.trans h.users, hmails, h.internalMails, ?deliveries, h.attachments, h.shared,
    h.next.trans hnext, hnew,
    h.rowIds, h.keyIds, ?own, h.ownAttachments, ?attached⟩
  case deliveries =>
    rw [InternalMailWorld.detach, h.deliveries, List.map_append, map_detach hold, hmails]
  case own =>
    intro d hd
    obtain ⟨d', hd', rfl⟩ := List.mem_map.mp hd
    exact h.ownDeliveries d' hd'
  case attached =>
    intro d hd id hid
    obtain ⟨d', hd', rfl⟩ := List.mem_map.mp hd
    obtain ⟨hid, hany⟩ := Option.filter_eq_some_iff.mp hid
    obtain ⟨c, hcopy, rfl⟩ := h.attached d' hd' id hid
    obtain ⟨c', hc', heq⟩ := List.any_eq_true.mp hany
    have heq : c'.id = c.id := by simpa using heq
    rcases List.mem_append.mp hc' with hc' | hc'
    · exact ⟨c', hc', heq⟩
    · exact absurd (hc.mails c' hc') (Nat.not_lt.mpr (heq ▸ h.copyIds c hcopy))

/-- One that leaves the mails as they are. -/
theorem Progress.sameMails (h : Progress w₀ m w) (hc : Consistent w₀) {world : World}
    (husers : world.db.users = w.world.db.users) (hmails : world.db.mails = w.world.db.mails)
    (hnext : w.world.nextId ≤ world.nextId) :
    Progress w₀ m { w with world := world, deliveries := w.detach world.db.mails } := by
  have hp := h.mail hc husers (hmails.trans h.mails) hnext h.copyIds
  rwa [map_detach fun d hd id hid => by
    obtain ⟨c, hcopy, rfl⟩ := h.attached d hd id hid
    exact ⟨c, List.mem_append_left _ hcopy, rfl⟩] at hp

/-- One that adds a copy. -/
theorem Progress.addCopy (h : Progress w₀ m w) (hc : Consistent w₀) {world : World} {c : Mail}
    (husers : world.db.users = w.world.db.users) (hmails : world.db.mails = c :: w.world.db.mails)
    (hnext : w.world.nextId ≤ world.nextId) (hid : w₀.world.nextId ≤ c.id) :
    Progress w₀ { m with copies := c :: m.copies }
    { w with world := world, deliveries := w.detach world.db.mails } := by
  have hmails' : world.db.mails = (c :: m.copies) ++ w₀.world.db.mails := by
    rw [hmails, h.mails, List.cons_append]
  have hp := h.mail hc husers hmails' hnext (List.forall_mem_cons.mpr ⟨hid, h.copyIds⟩)
  rwa [map_detach fun d hd id hid => by
    obtain ⟨x, hcopy, rfl⟩ := h.attached d hd id hid
    exact ⟨x, List.mem_append_left _ (List.mem_cons_of_mem _ hcopy), rfl⟩] at hp

/-- Rows that were there before do not have an id that is new. -/
theorem filter_old {α : Type} {f : α → Id} {rows : List α} {n id : Id} (h : ∀ r ∈ rows, f r < n)
    (hid : n ≤ id) :
    rows.filter (f · != id) = rows :=
  List.filter_eq_self.mpr fun r hr =>
    bne_iff_ne.mpr (Nat.ne_of_lt (Nat.lt_of_lt_of_le (h r hr) hid))

/-- A deletion of a mail that the call may have made. -/
theorem Progress.dropCopy (h : Progress w₀ m w) (hc : Consistent w₀) {id : Id}
    (hid : w₀.world.nextId ≤ id) :
    ∃ deliveries, Progress w₀ { m with copies := m.copies.filter fun c => !(c.id == id), deliveries := deliveries }
      { w with world := w.world.dropMails (·.id == id), deliveries :=
        w.detach (w.world.dropMails (·.id == id)).db.mails } := by
  have hold : (w₀.world.db.mails.filter fun c => !(c.id == id)) = w₀.world.db.mails :=
    filter_old hc.mails hid
  have hmails : (w.world.dropMails (·.id == id)).db.mails =
      (m.copies.filter fun c => !(c.id == id)) ++ w₀.world.db.mails := by
    show w.world.db.mails.filter (fun c => !(c.id == id)) = _
    rw [h.mails, List.filter_append, hold]
  exact ⟨_, h.mail hc rfl hmails (Nat.le_refl _) fun c hmem =>
    h.copyIds c (List.mem_of_mem_filter hmem)⟩

/-- A call that changes nothing of this. -/
theorem Progress.putShared (h : Progress w₀ m w) {key : Id} (hkey : w₀.world.nextId ≤ key)
    (size : Nat) :
    Progress w₀ { m with keys := key :: m.keys } { w with shared := w.shared.insert key size } := by
  refine ⟨h.users, h.mails, h.internalMails, h.deliveries, h.attachments, fun k hk => ?_, h.next,
    h.copyIds, h.rowIds,
    List.forall_mem_cons.mpr ⟨hkey, h.keyIds⟩, h.ownDeliveries, h.ownAttachments, h.attached⟩
  rw [List.mem_cons, not_or] at hk
  rw [AList.lookup_insert_ne hk.1]
  exact h.shared k hk.2

theorem Progress.deleteShared (h : Progress w₀ m w) (hc : Consistent w₀) {key : Id}
    (hkey : w₀.world.nextId ≤ key) :
    Progress w₀ { m with keys := m.keys.filter fun k => decide (k ≠ key) }
    { w with shared := w.shared.erase key } := by
  refine ⟨h.users, h.mails, h.internalMails, h.deliveries, h.attachments, fun k hk => ?_, h.next,
    h.copyIds, h.rowIds,
    fun k hk => h.keyIds k (List.mem_of_mem_filter hk), h.ownDeliveries,
      h.ownAttachments, h.attached⟩
  show (w.shared.erase key).lookup k = _
  by_cases hkk : k = key
  · subst hkk
    rw [AList.lookup_erase]
    cases hx : w₀.shared.lookup k with
    | none => rfl
    | some size => exact absurd (hc.shared k (by rw [hx]; rfl)) (Nat.not_lt.mpr hkey)
  · rw [AList.lookup_erase_ne hkk]
    exact h.shared k fun hmem => hk (List.mem_filter.mpr ⟨hmem, decide_eq_true hkk⟩)

theorem Progress.createInternalMail (h : Progress w₀ m w) (hnone : m.row = none)
    (hattachments : m.attachments = []) (row : InternalMail)
    (attachments : List AttachmentMetadata) :
    Progress w₀ { m with
        row := some { row with id := w.world.nextId }
        attachments := attachments.map (⟨w.world.nextId, ·⟩) }
      (w.deliver cfg (.createInternalMail row attachments)).1 := by
  refine ⟨h.users, h.mails, ?_, h.deliveries, ?_, h.shared, Nat.le_succ_of_le h.next, h.copyIds, ?_,
    h.keyIds, ?_, ?_, h.attached⟩
  · show _ :: w.internalMails = _
    rw [h.internalMails, hnone]
    rfl
  · show _ ++ w.attachments = _
    rw [h.attachments, hattachments]
    rfl
  · rintro r hr
    cases Option.some.inj hr
    exact h.next
  · intro d hd
    have := h.ownDeliveries d hd
    rw [hnone] at this
    cases this
  · intro a ha
    obtain ⟨x, -, rfl⟩ := List.mem_map.mp ha
    rfl

/-- Deleting the internal mail takes its deliveries and attachments along. -/
theorem Progress.deleteInternalMail (h : Progress w₀ m w) (hc : Consistent w₀) {id : Id}
    (hid : ∀ r ∈ m.row, r.id = id) (hnext : w₀.world.nextId ≤ id) :
    Progress w₀ { m with row := none, deliveries := [], attachments := [] }
    (w.deliver cfg (.deleteInternalMail id)).1 := by
  have hown : ∀ i, m.row.map (·.id) = some i → i = id := by
    intro i hi
    obtain ⟨r, hr, rfl⟩ := Option.map_eq_some_iff.mp hi
    exact hid r hr
  have hrow : m.row.toList.filter (·.id != id) = [] := by
    refine List.filter_eq_nil_iff.mpr fun r hr => ?_
    simp [hid r (Option.mem_toList.mp hr)]
  have hds : m.deliveries.filter (·.internalMailId != id) = [] :=
    List.filter_eq_nil_iff.mpr fun d hd => by simp [hown _ (h.ownDeliveries d hd)]
  have has : m.attachments.filter (·.internalMailId != id) = [] :=
    List.filter_eq_nil_iff.mpr fun a ha => by simp [hown _ (h.ownAttachments a ha)]
  simp only [InternalMailWorld.deliver]
  split
  · refine ⟨h.users, h.mails, ?_, ?_, ?_, h.shared, h.next, h.copyIds, by
      simp, h.keyIds, by simp, by simp, by simp⟩
    · show w.internalMails.filter (·.id != id) = _
      rw [h.internalMails, List.filter_append, hrow, filter_old hc.internalMails hnext]
      rfl
    · show w.deliveries.filter (·.internalMailId != id) = _
      rw [h.deliveries, List.filter_append, hds, filter_old hc.deliveries hnext]
    · show w.attachments.filter (·.internalMailId != id) = _
      rw [h.attachments, List.filter_append, has, filter_old hc.attachments hnext]
  · rename_i hany
    -- the row is gone already, and with it all that refers to it
    have hnone : m.row = none := by
      cases hr : m.row with
      | none => rfl
      | some r =>
        refine absurd (List.any_eq_true.mpr ⟨r, ?_, by simp [hid r hr]⟩) hany
        rw [h.internalMails, hr]
        exact List.mem_cons_self
    have hds : m.deliveries = [] := List.eq_nil_iff_forall_not_mem.mpr fun d hd => by
      have := h.ownDeliveries d hd
      rw [hnone] at this
      cases this
    have has : m.attachments = [] := List.eq_nil_iff_forall_not_mem.mpr fun a ha => by
      have := h.ownAttachments a ha
      rw [hnone] at this
      cases this
    have hm : { m with row := none, deliveries := [], attachments := [] } = m := by
      rw [← hnone, ← hds, ← has]
    rw [hm]
    exact h

theorem Progress.createDelivery (h : Progress w₀ m w) {internalMailId userId mailId : Id}
    {deliveries : List InternalMailDelivery}
    (hok : w.createDelivery internalMailId userId mailId = .ok deliveries)
    (hrow : m.row.map (·.id) = some internalMailId) (hmail : ∃ c ∈ m.copies, c.id = mailId) :
    Progress w₀ { m with deliveries := ⟨internalMailId, userId, some mailId, none⟩ :: m.deliveries }
      { w with deliveries := deliveries } := by
  have heq : deliveries = ⟨internalMailId, userId, some mailId, none⟩ :: w.deliveries := by
    unfold InternalMailWorld.createDelivery at hok
    split at hok
    · split at hok
      · cases hok
      · exact (Except.ok.inj hok).symm
    · cases hok
  refine ⟨h.users, h.mails, h.internalMails, ?_, h.attachments, h.shared, h.next, h.copyIds,
    h.rowIds, h.keyIds,
    List.forall_mem_cons.mpr ⟨hrow, h.ownDeliveries⟩, h.ownAttachments,
      List.forall_mem_cons.mpr ⟨fun id hid => ?_, h.attached⟩⟩
  · show deliveries = _
    rw [heq, h.deliveries]
    rfl
  · cases Option.some.inj hid
    exact hmail

/-- The stores are as the call has made them, with `C` of what it has made. -/
def Has (w₀ : InternalMailWorld) (C : Made → Prop) (s : InternalMailShared) : Prop :=
  ∃ m, Progress w₀ m s.store ∧ C m

/-- The routine, alone, ends in `Q` of its result and what it has made. -/
abbrev Does {α : Type} (cfg : Config) (w₀ : InternalMailWorld) (p : Nat) (x : InternalMailRoutine α)
    (Q : Except Thrown α → Made → Prop) (s : InternalMailShared) : Prop :=
  Meets (internalMails cfg) oneFault (.alone p) p x (fun r => Has w₀ (Q r)) s

/-- What one call does, delivered or failed. -/
structure Step (cfg : Config) (w₀ : InternalMailWorld) (q : InternalMailRequest) (C : Made → Prop)
    (post : Except Thrown q.Answer → Made → Prop) : Prop where
  delivered : ∀ w m, Progress w₀ m w → C m → ∃ m', Progress w₀ m' (w.deliver cfg q).1 ∧
    post (w.deliver cfg q).2 m'
  failed : q.compensates = false → ∀ m, C m → post (.error (.fault .unavailable)) m

section
variable {α β : Type} {s : InternalMailShared} {x : InternalMailRoutine α} {f : α →
  InternalMailRoutine β}
  {C : Made → Prop} {Q : Except Thrown α → Made → Prop} {Q' : Except Thrown β → Made → Prop}

theorem has_stable : Stable (internalMails cfg) oneFault (.alone p) p (Has w₀ C) :=
  .alone fun _ n _ ⟨m, h, hc⟩ => ⟨m, h.tick n, hc⟩

theorem Does.ret {a : α} (h : Has w₀ (Q (.ok a)) s) : Does cfg w₀ p (.ret a) Q s :=
  Meets.ret has_stable h fun _ ht _ => ht

theorem Does.throw {e : Thrown} (h : Has w₀ (Q (.error e)) s) : Does cfg w₀ p (.throw e) Q s :=
  Meets.throw has_stable h fun _ ht _ => ht

theorem Does.next (hx : Does cfg w₀ p x Q s)
    (ok : ∀ a t, Has w₀ (Q (.ok a)) t → Does cfg w₀ p (f a) Q' t)
    (err : ∀ e m, Q (.error e) m → Q' (.error e) m) : Does cfg w₀ p (x.bind f) Q' s :=
  Meets.next hx (fun e _ _ ⟨m, h, hq⟩ => ⟨m, h, err e m hq⟩) fun a t _ h => ok a t h

theorem Does.outcome {g : Except Thrown α → InternalMailRoutine β} (hx : Does cfg w₀ p x Q s)
    (h : ∀ r t, Has w₀ (Q r) t → Does cfg w₀ p (g r) Q' t) :
    Does cfg w₀ p (x.outcome.bind g) Q' s :=
  Meets.outcome hx h

theorem Does.mono {Q₂ : Except Thrown α → Made → Prop} (hx : Does cfg w₀ p x Q s)
    (h : ∀ r m, Q r m → Q₂ r m) :
    Does cfg w₀ p x Q₂ s :=
  Meets.mono hx fun r _ _ ⟨m, hm, hq⟩ => ⟨m, hm, h r m hq⟩

theorem Step.does {post : Except Thrown q.Answer → Made → Prop} (h : Step cfg w₀ q C post)
    (hs : Has w₀ C s) :
    Does cfg w₀ p (awaitInternal q) post s := by
  rw [← Prog.bind_ret (awaitInternal q)]
  refine Meets.await has_stable hs fun t ht _ d ha => ?_
  have hpost : Has w₀ (post ((internalMails cfg).reply d q t))
      ((internalMails cfg).after d p q t) := by
    obtain ⟨m, hm, hc⟩ := ht
    cases d with
    | delivered => exact h.delivered _ m hm hc
    | failed =>
      have hq : q.compensates = false := by simpa [oneFault] using ha
      exact ⟨m, hm, h.failed hq m hc⟩
    | lost => simp [oneFault] at ha
    | late => simp [oneFault] at ha
  exact ⟨rfl, fun a ha => Does.ret (ha ▸ hpost), fun e he => Does.throw (he ▸ hpost)⟩

end

/-- A call of the backend that leaves users and mails. -/
theorem step_backend {q : Request} (hc : Consistent w₀)
    (hdb : ∀ w : World, (w.deliver cfg q).1.db.users = w.db.users ∧
    (w.deliver cfg q).1.db.mails = w.db.mails) (m : Made) :
    Step cfg w₀ (.mail (.backend q)) (· = m) fun _ m' => m' = m where
  delivered := by
    rintro w _ h rfl
    exact ⟨_, h.sameMails hc (hdb w.world).1 (hdb w.world).2 (World.nextId_deliver cfg w.world q),
      rfl⟩
  failed := fun _ _ h => h

theorem step_random (hc : Consistent w₀) (m : Made) :
    Step cfg w₀ (.mail (.backend .random)) (· = m) fun r m' => m' = m ∧ ∀ key, r = .ok key →
    w₀.world.nextId ≤ key where
  delivered := by
    rintro w _ h rfl
    refine ⟨_, h.sameMails hc rfl rfl (Nat.le_succ _), rfl, fun key hkey => ?_⟩
    exact Except.ok.inj hkey ▸ h.next
  failed := fun _ _ h => ⟨h, fun _ hkey => by cases hkey⟩

theorem deliver_s3 (w : World) (name : BucketName) (q : S3Request) :
    (w.deliver cfg (.s3 name q)).1.db = w.db := by
  rcases World.deliver_db cfg w (.s3 name q) with h | ⟨_, _, _, h, _⟩
  · exact h
  · cases h

/-- What becomes of a copy for a user. -/
def Copied (m : Made) (userId : Id) : Except Thrown Id → Made → Prop
  | .error _, m' => m' = m
  | .ok id, m' =>
    ∃ c : Mail, c.id = id ∧ c.userId = userId ∧ m' = { m with copies := c :: m.copies }

theorem step_createMail (hc : Consistent w₀) (m : Made) (mail : Mail) :
    Step cfg w₀ (.mail (.backend (.statement (.createMail mail)))) (· = m)
    (Copied m mail.userId) where
  delivered := by
    rintro w _ h rfl
    show ∃ m', Progress w₀ m' { w with
        world := (w.world.deliver cfg (.statement (.createMail mail))).1
        deliveries := w.detach (w.world.deliver cfg (.statement (.createMail mail))).1.db.mails } ∧
      Copied _ mail.userId (w.world.deliver cfg (.statement (.createMail mail))).2 m'
    have hnext := World.nextId_deliver cfg w.world (.statement (.createMail mail))
    cases hr : (w.world.deliver cfg (.statement (.createMail mail))).2 with
    | error e =>
      rw [World.deliver_statement_error hr]
      exact ⟨_, h.sameMails hc rfl rfl (Nat.le_refl _), rfl⟩
    | ok id =>
      obtain ⟨db', hw⟩ := World.reply_statement hr
      have hid : id = w.world.nextId := by
        obtain ⟨y, _, heq⟩ := Database.perform_bind hw
        cases heq
        rfl
      have hdb : (w.world.deliver cfg (.statement (.createMail mail))).1.db = db' := by
        simp only [World.deliver, hw]
      have hres := Database.perform_result hw
      refine ⟨_, h.addCopy hc (c := { mail with id := id }) ?_ ?_ hnext ?_,
        { mail with id := id }, rfl, rfl, rfl⟩
      · rw [hdb, hres]
        rfl
      · rw [hdb, hres]
        rfl
      · exact hid ▸ h.next
  failed := fun _ _ h => h

theorem liftMailbox_bind {α β : Type} (x : MailRoutine α) (f : α → MailRoutine β) :
    liftMailbox (x.bind f) = (liftMailbox x).bind fun a => liftMailbox (f a) :=
  Prog.expand_bind x f

theorem liftMailbox_await (q : MailRequest) :
    liftMailbox (awaitMail q) = awaitInternal (.mail q) := by
  apply congrArg (Prog.call (InternalMailRequest.mail q))
  funext r
  cases r <;> rfl

theorem createInternalInboxMail_does (hc : Consistent w₀) {s : InternalMailShared} {m : Made}
    (hs : Has w₀ (· = m) s) {user : User} {sender : AdminMailSender} {subject body : String} :
    Does cfg w₀ p (AdminMailsService.createInternalInboxMail cfg user sender subject body)
    (Copied m user.id) s := by
  rw [AdminMailsService.createInternalInboxMail, MailService.storeMailboxMailForUser]
  simp only [Prog.bind_eq, liftMail_bind, liftMailbox_bind]
  rw [liftMail_await .random, liftMailbox_await]
  refine Does.next (Step.does (step_backend hc (fun _ => ⟨rfl, rfl⟩) m) hs) (fun storageKey t hs =>
    ?_) fun _ _ h => h
  refine Does.next (Step.does (step_backend hc (fun _ => ⟨rfl, rfl⟩) m) hs) (fun mailKey t hs => ?_)
    fun _ _ h => h
  refine Does.next (Step.does (step_backend hc (fun _ => ⟨rfl, rfl⟩) m) hs) (fun mailIv t hs => ?_)
    fun _ _ h => h
  rw [liftMail_await (.s3 .mails (.putObject storageKey _)), liftMailbox_await]
  refine Does.next (Step.does (step_backend hc (fun w => ?_) m) hs) (fun _ t hs => ?_) fun _ _ h =>
    h
  · exact ⟨by rw [deliver_s3], by rw [deliver_s3]⟩
  show Does cfg w₀ p (liftMailbox (liftMail (await (.statement _)))) _ _
  rw [liftMail_await, liftMailbox_await]
  exact Step.does (step_createMail hc m _) hs

section
variable {s : InternalMailShared} {C : Made → Prop}

theorem step_deleteShared (hc : Consistent w₀) {key : Id} (hkey : w₀.world.nextId ≤ key) :
    Step cfg w₀ (.deleteShared key) C fun r m' => r = .ok () ∧
      ∃ m, C m ∧ m' = { m with keys := m.keys.filter fun k => decide (k ≠ key) } where
  delivered := fun _ m h hm => ⟨_, h.deleteShared hc hkey, rfl, m, hm, rfl⟩
  failed := fun h => by cases h

/-- The objects that were stored are deleted. -/
theorem deleteStoredAttachments_does (hc : Consistent w₀) {keys : List Id}
    (hkeys : ∀ key ∈ keys, w₀.world.nextId ≤ key) (hs : Has w₀ C s) :
    Does cfg w₀ p (AdminMailsService.deleteStoredAttachments keys)
      (fun r m' => r = .ok () ∧ ∃ m, C m ∧
        m' = { m with keys := m.keys.filter fun k => decide (k ∉ keys) }) s := by
  induction keys generalizing s C with
  | nil =>
    obtain ⟨m, hm, hC⟩ := hs
    exact Does.ret ⟨m, hm, rfl, m, hC, by simp⟩
  | cons key keys ih =>
    rw [List.forall_mem_cons] at hkeys
    have hone : Does cfg w₀ p ((awaitInternal (.deleteShared key)).handle fun _ => .ret ())
        (fun r m' => r = .ok () ∧ ∃ m, C m ∧
          m' = { m with keys := m.keys.filter fun k => decide (k ≠ key) }) s := by
      refine Meets.caught (Meets.mono (Step.does (step_deleteShared hc hkeys.1) hs) fun r t _ ht =>
        ?_)
      cases r with
      | ok a => exact ht
      | error e =>
        obtain ⟨m, _, hr, _⟩ := ht
        cases hr
    refine Does.next hone (fun _ t ht => ?_) fun _ _ h => by cases h.1
    obtain ⟨m', hm', -, m, hC, rfl⟩ := ht
    refine (ih hkeys.2 (C := fun m' => ∃ m, C m ∧
      m' = { m with keys := m.keys.filter fun k => decide (k ≠ key) })
      ⟨_, hm', m, hC, rfl⟩).mono fun r m' h => ⟨h.1, ?_⟩
    obtain ⟨-, _, ⟨m, hC, rfl⟩, rfl⟩ := h
    refine ⟨m, hC, ?_⟩
    simp only [List.filter_filter, List.mem_cons, not_or, ne_eq]
    congr 1
    refine List.filter_congr fun k _ => ?_
    by_cases hk : k = key <;> simp [hk]

/-- Of what was made, the copies with these ids are gone. -/
structure Reduced (ids : List Id) (m m' : Made) : Prop where
  copies : ∀ c ∈ m'.copies, c ∈ m.copies ∧ c.id ∉ ids
  row : m'.row = m.row
  keys : m'.keys = m.keys

theorem deliver_mailById (h : Progress w₀ m w) (hc : Consistent w₀) {id : Id}
    (hid : w₀.world.nextId ≤ id) :
    (w.deliver cfg (.mail (.mailById id))).2 = .ok (m.copies.find? fun c => c.id == id) := by
  show Except.ok (w.world.db.mails.find? fun c => c.id == id) = _
  rw [h.mails, List.find?_append]
  have hold : (w₀.world.db.mails.find? fun c => c.id == id) = none :=
    List.find?_eq_none.mpr fun c hmem => by
      simpa using Nat.ne_of_lt (Nat.lt_of_lt_of_le (hc.mails c hmem) hid)
  rw [hold, Option.or_none]

/-- Deleting the object of a mail leaves its row. -/
theorem step_deleteObject (hc : Consistent w₀) (key : Id) (m : Made) :
    Step cfg w₀ (.mail (.backend (.s3 .mails (.deleteObject key)))) (· = m) fun _ m' => m' = m where
  delivered := by
    rintro w _ h rfl
    have hdb : (w.world.deliver cfg (.s3 .mails (.deleteObject key))).1.db = w.world.db :=
      deliver_s3 w.world _ _
    exact ⟨_, h.sameMails hc (congrArg _ hdb) (congrArg _ hdb) (World.nextId_deliver cfg w.world _),
      rfl⟩
  failed := fun _ _ h => h

theorem deleteObjects_does (hc : Consistent w₀) {keys : List Id} {m : Made}
    (hs : Has w₀ (· = m) s) :
    Does cfg w₀ p (liftMailbox (MailService.deleteObjects keys))
    (fun r m' => r = .ok () ∧ m' = m) s := by
  induction keys generalizing s with
  | nil =>
    obtain ⟨m', hm, rfl⟩ := hs
    exact Does.ret ⟨m', hm, rfl, rfl⟩
  | cons key keys ih =>
    rw [MailService.deleteObjects, Prog.forEach, liftMailbox_bind]
    have hone : Does cfg w₀ p (liftMailbox
      ((awaitMail (.backend (.s3 .mails (.deleteObject key)))).handle fun _ => .ret ()))
        (fun r m' => r = .ok () ∧ m' = m) s := by
      have hcaught : liftMailbox ((awaitMail (.backend (.s3 .mails (.deleteObject key)))).handle
        fun _ => .ret ()) =
          (awaitInternal (.mail (.backend (.s3 .mails (.deleteObject key))))).handle fun _ =>
            .ret () := by
        apply congrArg (Prog.call (InternalMailRequest.mail
          (.backend (.s3 .mails (.deleteObject key)))))
        funext r
        cases r <;> rfl
      rw [hcaught]
      refine Meets.caught (Meets.mono (Step.does (step_deleteObject hc key m) hs) fun r t _ ht =>
        ?_)
      obtain ⟨m', hm, rfl⟩ := ht
      cases r with
      | ok a => exact ⟨m', hm, rfl, rfl⟩
      | error e => exact Does.ret ⟨m', hm, rfl, rfl⟩
    refine Does.next hone (fun _ t ht => ?_) fun _ _ h => by cases h.1
    obtain ⟨m', hm, -, rfl⟩ := ht
    exact ih ⟨m', hm, rfl⟩

theorem step_deleteMail (hc : Consistent w₀) {id : Id} (hid : w₀.world.nextId ≤ id) {m : Made}
    {c : Mail} (hmem : c ∈ m.copies) (heq : c.id = id) :
    Step cfg w₀ (.mail (.deleteMail id)) (· = m) fun r m' => r = .ok () ∧ Reduced [id] m m' where
  delivered := by
    intro w m₁ h hm
    subst hm
    have hany : w.world.db.mails.any (·.id == id) = true := by
      refine List.any_eq_true.mpr ⟨c, ?_, beq_iff_eq.mpr heq⟩
      rw [h.mails]
      exact List.mem_append_left _ hmem
    have hexec : w.world.deliverMail cfg (.deleteMail id) = (w.world.dropMails (·.id == id), .ok ()) := if_pos hany
    obtain ⟨deliveries, hdrop⟩ := h.dropCopy hc hid
    refine ⟨{ m₁ with copies := m₁.copies.filter fun c => !(c.id == id), deliveries := deliveries },
      ?_, ?_,
      fun c' hmem' => ?_, rfl, rfl⟩
    · simp only [InternalMailWorld.deliver, hexec]
      exact hdrop
    · simp only [InternalMailWorld.deliver, hexec]
    · obtain ⟨hmem', hne⟩ := List.mem_filter.mp hmem'
      exact ⟨hmem', by simpa using hne⟩
  failed := fun h => by cases h

/-- The copy with the id is deleted, if it is there. -/
theorem deleteMailRecordById_does (hc : Consistent w₀) {id : Id} (hid : w₀.world.nextId ≤ id)
    {m : Made} (hs : Has w₀ (· = m) s) :
    Does cfg w₀ p (liftMailbox (MailService.deleteMailRecordById id false))
      (fun r m' => r = .ok () ∧ Reduced [id] m m') s := by
  rw [MailService.deleteMailRecordById, Prog.bind_eq, liftMailbox_bind, liftMailbox_await]
  have hfind : Step cfg w₀ (.mail (.mailById id)) (· = m) fun r m' => m' = m ∧
      r = .ok (m.copies.find? fun c => c.id == id) :=
    { delivered := by
        rintro w _ h rfl
        exact ⟨_, h.sameMails hc rfl rfl (Nat.le_refl _), rfl, deliver_mailById h hc hid⟩
      failed := fun h => by cases h }
  refine Does.next (hfind.does hs) (fun found t ht => ?_) fun _ _ h => by cases h.2
  obtain ⟨m', hm, rfl, hfound⟩ := ht
  have hfound : found = m'.copies.find? fun c => c.id == id := Except.ok.inj hfound
  cases hcopy : found with
  | none =>
    rw [hcopy] at hfound
    refine Does.ret ⟨m', hm, rfl, fun c hmem => ⟨hmem, ?_⟩, rfl, rfl⟩
    simpa using List.find?_eq_none.mp hfound.symm c hmem
  | some c =>
    rw [hcopy] at hfound
    show Does cfg w₀ p (liftMailbox ((MailService.deleteObjects (MailService.storageKeys c)).bind
      fun _ => awaitMail (.deleteMail id))) _ t
    rw [liftMailbox_bind, liftMailbox_await]
    refine Does.next (deleteObjects_does hc ⟨m', hm, rfl⟩) (fun _ t' ht' => ?_) fun _ _ h => by
      cases h.1
    exact (step_deleteMail hc hid (List.mem_of_find?_eq_some hfound.symm)
      (by simpa using List.find?_some hfound.symm)).does (ht'.imp fun m'' h => ⟨h.1, h.2.2⟩)

/-- The copies that were pushed are deleted. -/
theorem deleteDelivered_does (hc : Consistent w₀) {ids : List Id}
    (hids : ∀ id ∈ ids, w₀.world.nextId ≤ id) {m : Made} (hs : Has w₀ (· = m) s) :
    Does cfg w₀ p (AdminMailsService.deleteDelivered ids)
    (fun r m' => r = .ok () ∧ Reduced ids m m') s := by
  induction ids generalizing s m with
  | nil =>
    obtain ⟨m', hm, rfl⟩ := hs
    exact Does.ret ⟨m', hm, rfl, fun c hmem => ⟨hmem, by simp⟩, rfl, rfl⟩
  | cons id ids ih =>
    rw [List.forall_mem_cons] at hids
    refine Does.next (deleteMailRecordById_does hc hids.1 hs) (fun _ t ht => ?_) fun _ _ h => by
      cases h.1
    obtain ⟨m₁, hm₁, -, hone⟩ := ht
    refine (ih hids.2 ⟨m₁, hm₁, rfl⟩).mono fun r m₂ h =>
      ⟨h.1, fun c hmem => ?_, h.2.row.trans hone.row, h.2.keys.trans hone.keys⟩
    obtain ⟨hmem, hne⟩ := h.2.copies c hmem
    obtain ⟨hmem, hne'⟩ := hone.copies c hmem
    exact ⟨hmem, by simp at hne' ⊢; exact ⟨hne', hne⟩⟩

theorem Progress.ofNothing (h : Progress w₀ m w) (hcopies : m.copies = []) (hrow : m.row = none)
    (hkeys : m.keys = []) :
    m = nothing := by
  obtain ⟨copies, row, deliveries, attachments, keys⟩ := m
  cases hcopies
  cases hrow
  cases hkeys
  have hds : deliveries = [] := List.eq_nil_iff_forall_not_mem.mpr fun d hd => by
    cases h.ownDeliveries d hd
  have has : attachments = [] := List.eq_nil_iff_forall_not_mem.mpr fun a ha => by
    cases h.ownAttachments a ha
  rw [nothing, hds, has]

theorem deleteInternalMail_does (hc : Consistent w₀) {id : Id} (hid : w₀.world.nextId ≤ id)
    {m : Made} (hrow : ∀ r ∈ m.row, r.id = id) (hs : Has w₀ (· = m) s) :
    Does cfg w₀ p (AdminMailsService.deleteInternalMail id)
      (fun r m' => r = .ok () ∧ m' = { m with row := none, deliveries := [], attachments :=
        [] }) s := by
  have hdelete : Step cfg w₀ (.deleteInternalMail id) (· = m)
      fun _ m' => m' = { m with row := none, deliveries := [], attachments := [] } :=
    { delivered := by
        rintro w _ h rfl
        exact ⟨_, h.deleteInternalMail hc hrow hid, rfl⟩
      failed := fun h => by cases h }
  refine Meets.caught (Meets.mono (hdelete.does hs) fun r t _ ht => ?_)
  obtain ⟨m', hm, rfl⟩ := ht
  cases r with
  | ok a => exact ⟨_, hm, rfl, rfl⟩
  | error e => exact Does.ret ⟨_, hm, rfl, rfl⟩

/-- All that was made is known to the catch blocks. -/
structure Known (w₀ : InternalMailWorld) (delivered keys : List Id) (id : Option Id) (m : Made) :
    Prop where
  copies : ∀ c ∈ m.copies, c.id ∈ delivered
  objects : ∀ key ∈ m.keys, key ∈ keys
  row : ∀ r ∈ m.row, id = some r.id
  newCopies : ∀ i ∈ delivered, w₀.world.nextId ≤ i
  newKeys : ∀ key ∈ keys, w₀.world.nextId ≤ key
  newRow : ∀ i ∈ id, w₀.world.nextId ≤ i

theorem Reduced.nil {delivered : List Id} {m m' : Made} (h : Reduced delivered m m')
    (hm : ∀ c ∈ m.copies, c.id ∈ delivered) :
    m'.copies = [] :=
  List.eq_nil_iff_forall_not_mem.mpr fun c hmem => (h.copies c hmem).2 (hm c (h.copies c hmem).1)

/-- The outer catch block leaves nothing. -/
theorem cleanUp_does (hc : Consistent w₀) {delivered keys : List Id} {id : Option Id}
    (hs : Has w₀ (Known w₀ delivered keys id) s) :
    Does cfg w₀ p (AdminMailsService.cleanUp delivered keys id)
    (fun r m' => r = .ok () ∧ m' = nothing) s := by
  obtain ⟨m, hm, hknown⟩ := hs
  refine Does.next (deleteDelivered_does hc hknown.newCopies ⟨m, hm, rfl⟩) (fun _ t ht => ?_)
    fun _ _ h => by cases h.1
  obtain ⟨m₁, hm₁, -, hless⟩ := ht
  refine Does.next (deleteStoredAttachments_does hc hknown.newKeys (C := (· = m₁)) ⟨m₁, hm₁, rfl⟩)
    (fun _ t ht => ?_)
    fun _ _ h => by cases h.1
  obtain ⟨m₂, hm₂, -, m₃, h₃, h₂⟩ := ht
  rw [h₃] at h₂
  rw [h₂] at hm₂
  have hcopies : m₁.copies = [] := hless.nil hknown.copies
  have hkeys : (m₁.keys.filter fun k => decide (k ∉ keys)) = [] := by
    refine List.filter_eq_nil_iff.mpr fun k hk => ?_
    simpa using hknown.objects k (hless.keys ▸ hk)
  cases id with
  | none =>
    have hrow : m₁.row = none := by
      cases hr : m.row with
      | none => rw [hless.row, hr]
      | some r => cases hknown.row r (by rw [hr]; rfl)
    exact Does.ret ⟨_, hm₂, rfl, hm₂.ofNothing hcopies hrow hkeys⟩
  | some id =>
    have hrow : ∀ r ∈ m₁.row, r.id = id :=
      fun r hr => (Option.some.inj (hknown.row r (hless.row ▸ hr))).symm
    rw [hkeys] at hm₂
    refine Does.mono (deleteInternalMail_does hc (hknown.newRow id rfl) (m :=
      { m₁ with keys := [] }) hrow ⟨_, hm₂, rfl⟩)
      fun r m' h => ⟨h.1, ?_⟩
    rw [h.2, nothing, ← hcopies]

/-- After the inner catch block only the stored attachments are left. -/
theorem undoDeliveries_does (hc : Consistent w₀) {delivered keys : List Id} {id : Id} {e : Thrown}
    (hs : Has w₀ (Known w₀ delivered keys (some id)) s) :
    Does cfg w₀ p (AdminMailsService.undoDeliveries delivered id e)
      (fun r m' => (∃ e', r = .ok e') ∧ Known w₀ delivered keys (some id) m') s := by
  obtain ⟨m, hm, hknown⟩ := hs
  have hundo : Does cfg w₀ p ((AdminMailsService.deleteDelivered delivered).bind fun _ =>
    AdminMailsService.deleteInternalMail id)
      (fun _ m' => Known w₀ delivered keys (some id) m') s := by
    refine Does.next (deleteDelivered_does hc hknown.newCopies ⟨m, hm, rfl⟩) (fun _ t ht => ?_)
      fun _ _ h => by cases h.1
    obtain ⟨m₁, hm₁, -, hless⟩ := ht
    have hrow : ∀ r ∈ m₁.row, r.id = id :=
      fun r hr => (Option.some.inj (hknown.row r (hless.row ▸ hr))).symm
    refine (deleteInternalMail_does hc (hknown.newRow id rfl) hrow ⟨m₁, hm₁, rfl⟩).mono
      fun r m' h => ?_
    rw [h.2]
    exact ⟨fun c hmem => hknown.copies c (hless.copies c hmem).1,
      fun k hk => hknown.objects k (hless.keys ▸ hk),
      (fun r hr => by cases hr), hknown.newCopies, hknown.newKeys, hknown.newRow⟩
  refine Does.outcome hundo fun r t ht => ?_
  obtain ⟨m', hm', hk⟩ := ht
  cases r with
  | ok _ => exact Does.ret ⟨m', hm', ⟨_, rfl⟩, hk⟩
  | error e' => exact Does.ret ⟨m', hm', ⟨_, rfl⟩, hk⟩

/-- Only attachments are stored, and their keys are known. -/
def Stored (w₀ : InternalMailWorld) (stored : List AttachmentMetadata) (m : Made) : Prop :=
  Known w₀ [] (AdminMailsService.storageKeysOf stored) none m

theorem storageKeysOf_append (stored : List AttachmentMetadata) {metadata : AttachmentMetadata}
    {key : Id} (h : metadata.storageKey = some key) :
    AdminMailsService.storageKeysOf (stored ++ [metadata]) = AdminMailsService.storageKeysOf
      stored ++ [key] := by
  rw [AdminMailsService.storageKeysOf, List.filterMap_append]
  simp [AdminMailsService.storageKeysOf, h]

theorem storeSharedInternalAttachment_does (hc : Consistent w₀) {stored : List AttachmentMetadata}
    {attachment : UploadedAttachment} (hs : Has w₀ (Stored w₀ stored) s) :
    Does cfg w₀ p (AdminMailsService.storeSharedInternalAttachment attachment)
    (fun r m' => match r with
      | .ok metadata => Stored w₀ (stored ++ [metadata]) m'
      | .error _ => Stored w₀ stored m') s := by
  obtain ⟨m, hm, hstored⟩ := hs
  refine Does.next (Step.does (step_random hc m) ⟨m, hm, rfl⟩) (fun key t ht => ?_) fun _ _ h =>
    h.1 ▸ hstored
  obtain ⟨m', hm', rfl, hkey⟩ := ht
  have hkey : w₀.world.nextId ≤ key := hkey key rfl
  have hput : Step cfg w₀ (.putShared key attachment.size) (· = m') fun r m'' => match r with
      | .ok _ => m'' = { m' with keys := key :: m'.keys }
      | .error _ => m'' = m' :=
    { delivered := by
        intro w m₁ h hm₁
        subst hm₁
        exact ⟨_, h.putShared hkey attachment.size, rfl⟩
      failed := fun _ _ h => h }
  refine Does.next (hput.does ⟨m', hm', rfl⟩) (fun _ t ht => Does.ret ?_) fun _ m'' h => ?_
  · obtain ⟨m'', hm'', rfl⟩ := ht
    refine ⟨_, hm'', ?_⟩
    show Known w₀ [] (AdminMailsService.storageKeysOf (stored ++ [_])) none _
    rw [storageKeysOf_append stored rfl]
    refine ⟨hstored.copies, fun k hk => ?_, hstored.row, hstored.newCopies, fun k hk => ?_,
      hstored.newRow⟩
    · rcases List.mem_cons.mp hk with rfl | hk
      · exact List.mem_append_right _ (List.mem_singleton.mpr rfl)
      · exact List.mem_append_left _ (hstored.objects k hk)
    · rcases List.mem_append.mp hk with hk | hk
      · exact hstored.newKeys k hk
      · exact List.mem_singleton.mp hk ▸ hkey
  · have h : m'' = m' := h
    exact h ▸ hstored

theorem storeEach_does (hc : Consistent w₀) {attachments : List UploadedAttachment}
    {stored : List AttachmentMetadata} (hs : Has w₀ (Stored w₀ stored) s) :
    Does cfg w₀ p (AdminMailsService.storeEach attachments stored)
      (fun r m' => ∃ stored' failure, r = .ok (stored', failure) ∧ Stored w₀ stored' m') s := by
  induction attachments generalizing s stored with
  | nil => exact Does.ret (hs.imp fun m h => ⟨h.1, _, _, rfl, h.2⟩)
  | cons attachment rest ih =>
    rw [AdminMailsService.storeEach]
    split
    · exact Does.ret (hs.imp fun m h => ⟨h.1, _, _, rfl, h.2⟩)
    · refine Does.outcome (storeSharedInternalAttachment_does hc hs) fun r t ht => ?_
      cases r with
      | ok metadata => exact ih ht
      | error e => exact Does.ret (ht.imp fun m h => ⟨h.1, _, _, rfl, h.2⟩)

/-- Where an attachment fails, those before it are deleted again. -/
theorem storeUploadedAttachments_does (hc : Consistent w₀) {attachments : List UploadedAttachment}
    (hs : Has w₀ (· = nothing) s) :
    Does cfg w₀ p (AdminMailsService.storeUploadedAttachments attachments) (fun r m' => match r with
      | .ok stored => Stored w₀ stored m'
      | .error _ => m' = nothing) s := by
  refine Meets.throwIf (fun _ => Does.throw hs) fun _ => ?_
  have hnothing : Stored w₀ [] nothing := by
    constructor <;> simp [nothing, AdminMailsService.storageKeysOf]
  obtain ⟨_, hm, rfl⟩ := hs
  refine Does.next (storeEach_does hc ⟨_, hm, hnothing⟩) (fun x t ht => ?_) fun _ _ h => by
    obtain ⟨_, _, hr, _⟩ := h; cases hr
  obtain ⟨m, hm, stored, failure, heq, hstored⟩ := ht
  cases Except.ok.inj heq
  cases failure with
  | none => exact Does.ret ⟨m, hm, hstored⟩
  | some e =>
    refine Does.next (deleteStoredAttachments_does hc hstored.newKeys (C := (· = m)) ⟨m, hm, rfl⟩)
      (fun _ t ht => Does.throw ?_)
      fun _ _ h => by cases h.1
    obtain ⟨m₂, hm₂, -, m₃, h₃, h₂⟩ := ht
    rw [h₃] at h₂
    refine ⟨m₂, hm₂, hm₂.ofNothing ?_ ?_ ?_⟩
    · rw [h₂]
      exact List.eq_nil_iff_forall_not_mem.mpr fun c hmem => by cases hstored.copies c hmem
    · rw [h₂]
      cases hr : m.row with
      | none => rfl
      | some r => cases hstored.row r (by rw [hr]; rfl)
    · rw [h₂]
      refine List.filter_eq_nil_iff.mpr fun k hk => ?_
      simpa using hstored.objects k hk

/-- Each of the users has got one copy and the record of it. -/
structure Complete (id : Id) (users : List User) (m : Made) : Prop where
  users : m.copies.map (·.userId) = (users.map (·.id)).reverse
  deliveries : m.deliveries = m.copies.map fun c => ⟨id, c.userId, some c.id, none⟩

/-- All is known, and the internal mail is `row`. -/
def Sending (w₀ : InternalMailWorld) (delivered keys : List Id) (row : InternalMail)
    (m : Made) : Prop :=
  Known w₀ delivered keys (some row.id) m ∧ m.row = some row

theorem deliverEach_does (hc : Consistent w₀) {users done : List User} {delivered keys : List Id}
    {row : InternalMail} {sender : AdminMailSender} {subject body : String}
    (hs : Has w₀ (fun m => Sending w₀ delivered keys row m ∧ Complete row.id done m) s) :
    Does cfg w₀ p (AdminMailsService.deliverEach cfg row.id sender subject body users delivered)
      (fun r m' => ∃ delivered' failure, r = .ok (delivered', failure) ∧
        Sending w₀ delivered' keys row m' ∧
        (failure = none → Complete row.id (done ++ users) m')) s := by
  induction users generalizing s delivered done with
  | nil => exact Does.ret (hs.imp fun m h => ⟨h.1, _, _, rfl, h.2.1, fun _ => by simpa using h.2.2⟩)
  | cons user rest ih =>
    obtain ⟨m, hm, hsending, hcomplete⟩ := hs
    refine Does.outcome (createInternalInboxMail_does hc ⟨m, hm, rfl⟩) fun r t ht => ?_
    obtain ⟨m', hm', hcopied⟩ := ht
    cases r with
    | error e =>
      refine Does.ret ⟨m', hm', _, _, rfl, ?_, fun h => by cases h⟩
      exact (show m' = m from hcopied) ▸ hsending
    | ok mailId =>
      obtain ⟨c, hid, huser, hcopied⟩ := hcopied
      have hknown : Sending w₀ (delivered ++ [mailId]) keys row m' := by
        subst hcopied
        obtain ⟨hk, hrow⟩ := hsending
        refine ⟨⟨fun c' hmem => ?_, hk.objects, hk.row, fun i hi => ?_, hk.newKeys, hk.newRow⟩,
          hrow⟩
        · rcases List.mem_cons.mp hmem with rfl | hmem
          · exact List.mem_append_right _ (List.mem_singleton.mpr hid)
          · exact List.mem_append_left _ (hk.copies c' hmem)
        · rcases List.mem_append.mp hi with hi | hi
          · exact hk.newCopies i hi
          · exact List.mem_singleton.mp hi ▸ hid ▸ hm'.copyIds c List.mem_cons_self
      have hdelivery : Step cfg w₀ (.createDelivery row.id user.id mailId) (· = m') fun r m'' =>
          Sending w₀ (delivered ++ [mailId]) keys row m'' ∧ ∀ a, r = .ok a →
            Complete row.id (done ++ [user]) m'' :=
        { delivered := by
            intro w m₁ h hm₁
            subst hm₁
            simp only [InternalMailWorld.deliver]
            cases hcreate : w.createDelivery row.id user.id mailId with
            | error e => exact ⟨m₁, h, hknown, fun _ h => by cases h⟩
            | ok deliveries =>
              have hrow : m₁.row.map (·.id) = some row.id := by rw [hknown.2]; rfl
              have hmail : ∃ c ∈ m₁.copies, c.id = mailId :=
                ⟨c, by rw [hcopied]; exact List.mem_cons_self, hid⟩
              refine ⟨_, h.createDelivery hcreate hrow hmail,
                ⟨⟨hknown.1.copies, hknown.1.objects, hknown.1.row,
                hknown.1.newCopies, hknown.1.newKeys, hknown.1.newRow⟩, hknown.2⟩,
                  fun _ _ => ⟨?_, ?_⟩⟩
              · show m₁.copies.map (·.userId) = _
                rw [hcopied, List.map_cons, hcomplete.users, huser]
                simp
              · show _ :: m₁.deliveries = m₁.copies.map _
                rw [hcopied, List.map_cons, ← hcomplete.deliveries, huser, hid]
          failed := fun _ m₁ hm₁ => ⟨hm₁ ▸ hknown, fun _ h => by cases h⟩ }
      refine Does.outcome (hdelivery.does ⟨m', hm', rfl⟩) fun r t ht => ?_
      cases r with
      | error e => exact Does.ret (ht.imp fun m h => ⟨h.1, _, _, rfl, h.2.1, fun h => by cases h⟩)
      | ok _ =>
        refine Does.mono (ih (ht.imp fun m h => ⟨h.1, h.2.1, h.2.2 _ rfl⟩)) fun r m h => ?_
        rwa [List.append_assoc] at h

/-- The routine makes no calls. -/
def Immediate {α : Type} (x : InternalMailRoutine α) : Prop := (∃ a, x = .ret a) ∨ ∃ e, x = .throw e

theorem Immediate.ite {α : Type} {c : Prop} [Decidable c] {x y : InternalMailRoutine α}
    (hx : Immediate x) (hy : Immediate y) :
    Immediate (if c then x else y) := by
  split
  · exact hx
  · exact hy

theorem Immediate.does {α : Type} {x : InternalMailRoutine α} (hx : Immediate x) (hs : Has w₀ C s) :
    Does cfg w₀ p x (fun r m => C m ∧ ∀ a, r = .ok a → x = .ret a) s := by
  obtain ⟨a, rfl⟩ | ⟨e, rfl⟩ := hx
  · exact Does.ret (hs.imp fun m h => ⟨h.1, h.2, fun b hb => by cases hb; rfl⟩)
  · exact Does.throw (hs.imp fun m h => ⟨h.1, h.2, fun b hb => by cases hb⟩)

theorem findSenderOrThrow_immediate (senderId : String) :
    Immediate (AdminMailsService.findSenderOrThrow senderId) := by
  unfold AdminMailsService.findSenderOrThrow
  split
  · exact .inl ⟨_, rfl⟩
  · exact .inr ⟨_, rfl⟩

theorem resolveTargetAddress_immediate (cfg : Config) (dto : SendAdminMailDto) :
    Immediate (AdminMailsService.resolveTargetAddress cfg dto) := by
  refine .ite (.inr ⟨_, rfl⟩) (.ite (.inr ⟨_, rfl⟩) ?_)
  split
  · exact .inr ⟨_, rfl⟩
  · exact .inl ⟨_, rfl⟩

theorem recipients_congr (h : w.world.db.users = w₀.world.db.users) (target : InternalMailTarget) :
    w.recipients cfg target = w₀.recipients cfg target := by
  unfold InternalMailWorld.recipients
  rw [h]

theorem resolveRecipientUsers_does {target : InternalMailTarget} (hs : Has w₀ C s) :
    Does cfg w₀ p (AdminMailsService.resolveRecipientUsers target)
      (fun r m => C m ∧ ∀ users, r = .ok users → users = w₀.recipients cfg target) s := by
  have hread : Step cfg w₀ (.recipients target) C fun r m => C m ∧ ∀ users, r = .ok users →
      users = w₀.recipients cfg target :=
    { delivered := fun w m h hm => ⟨m, h, hm,
      fun users hr => (Except.ok.inj hr).symm.trans (recipients_congr h.users target)⟩
      failed := fun _ m hm => ⟨hm, fun _ hr => by cases hr⟩ }
  refine Does.next (hread.does hs) (fun users t ht => ?_) fun _ _ h => ⟨h.1, fun _ hr => by
    cases hr⟩
  refine Meets.throwIf (fun _ => Does.throw (ht.imp fun m h =>
    ⟨h.1, h.2.1, fun _ hr => by cases hr⟩)) fun _ => ?_
  exact Does.ret (ht.imp fun m h => ⟨h.1, h.2.1, fun _ hr => h.2.2 _ hr⟩)

/-- What becomes of the internal mail itself. -/
theorem createInternalMail_does {stored : List AttachmentMetadata} {row : InternalMail}
    {attachments : List AttachmentMetadata} (hs : Has w₀ (Stored w₀ stored) s) :
    Does cfg w₀ p (awaitInternal (.createInternalMail row attachments)) (fun r m' => match r with
      | .ok id =>
        Sending w₀ [] (AdminMailsService.storageKeysOf stored) { row with id := id } m' ∧
          m'.copies = [] ∧ m'.deliveries = []
      | .error _ => Stored w₀ stored m') s := by
  refine Step.does (q := .createInternalMail row attachments) (C := Stored w₀ stored)
    { delivered := fun w m h hm => ?_, failed := fun _ m hm => hm } hs
  have hnone : m.row = none := by
    cases hr : m.row with
    | none => rfl
    | some r => cases hm.row r (by rw [hr]; rfl)
  have hattachments : m.attachments = [] := List.eq_nil_iff_forall_not_mem.mpr fun a ha => by
    have := h.ownAttachments a ha
    rw [hnone] at this
    cases this
  have hdeliveries : m.deliveries = [] := List.eq_nil_iff_forall_not_mem.mpr fun d hd => by
    have := h.ownDeliveries d hd
    rw [hnone] at this
    cases this
  refine ⟨_, h.createInternalMail hnone hattachments row attachments,
    ⟨⟨hm.copies, hm.objects, ?_, hm.newCopies, hm.newKeys, ?_⟩, rfl⟩,
    ?_, hdeliveries⟩
  · rintro r hr
    cases Option.some.inj hr
    rfl
  · rintro i hi
    cases Option.some.inj hi
    exact h.next
  · exact List.eq_nil_iff_forall_not_mem.mpr fun c hmem => by cases hm.copies c hmem

/-- What a call to send comes to: all that it returns is there, or nothing is. -/
def AllSent (cfg : Config) (w₀ : InternalMailWorld) (dto : SendAdminMailDto) :
    Except Thrown AdminMailsService.SentMail → Made → Prop
  | .error _, m => m = nothing
  | .ok sent, m => ∃ row, m.row = some row ∧ row.id = sent.mailId ∧
      AdminMailsService.resolveTargetAddress cfg dto = .ret row.target ∧
        Complete row.id (w₀.recipients cfg row.target) m

/-- After the outer catch block the error is thrown. -/
theorem cleanUp_throw (hc : Consistent w₀) {delivered keys : List Id} {id : Option Id} {e : Thrown}
    {dto : SendAdminMailDto} (hs : Has w₀ (Known w₀ delivered keys id) s) :
    Does cfg w₀ p ((AdminMailsService.cleanUp delivered keys id).bind fun _ => .throw e)
    (AllSent cfg w₀ dto) s :=
  Does.next (cleanUp_does hc hs) (fun _ _ ht => Does.throw (ht.imp fun _ h => ⟨h.1, h.2.2⟩))
    fun _ _ h => by cases h.1

theorem auditLog_does (hc : Consistent w₀) {log : AuditLog} {m : Made} (hs : Has w₀ (· = m) s) :
    Does cfg w₀ p (awaitInternal (.mail (.backend (.statement (.auditLog log)))))
    (fun _ m' => m' = m) s :=
  Step.does (step_backend hc (fun _ => ⟨rfl, rfl⟩) m) hs

theorem sendMail_does (hc : Consistent w₀) {adminUserId : Id} {dto : SendAdminMailDto}
    {attachments : List UploadedAttachment} (hs : Has w₀ (· = nothing) s) :
    Does cfg w₀ p (AdminMailsService.sendMail cfg adminUserId dto attachments)
    (AllSent cfg w₀ dto) s := by
  refine Does.next ((findSenderOrThrow_immediate _).does hs) (fun sender t ht => ?_) fun _ _ h =>
    h.1
  replace hs := ht.imp fun _ h => And.intro h.1 h.2.1
  refine Does.next ((resolveTargetAddress_immediate cfg dto).does hs) (fun target t ht => ?_)
    fun _ _ h => h.1
  obtain ⟨m, hm, hnothing, htarget⟩ := ht
  replace htarget := htarget target rfl
  refine Does.next (resolveRecipientUsers_does ⟨m, hm, hnothing⟩) (fun users t ht => ?_)
    fun _ _ h => h.1
  obtain ⟨m, hm, hnothing, husers⟩ := ht
  replace husers := husers users rfl
  replace hs : Has w₀ (· = nothing) t := ⟨m, hm, hnothing⟩
  refine Meets.throwIf (fun _ => Does.throw hs) fun _ => ?_
  refine Does.next (storeUploadedAttachments_does hc hs) (fun stored t ht => ?_) fun _ _ h => h
  refine Does.outcome (createInternalMail_does ht) fun r t ht => ?_
  cases r with
  | error e => exact cleanUp_throw hc ht
  | ok internalMailId =>
    obtain ⟨m, hm, hsending, hcopies, hdeliveries⟩ := ht
    have hcomplete : Complete internalMailId [] m :=
      ⟨by rw [hcopies]; rfl, by rw [hdeliveries, hcopies]; rfl⟩
    have hs : Has w₀ (fun m => Sending w₀ [] (AdminMailsService.storageKeysOf stored) _ m ∧
      Complete internalMailId [] m) t :=
      ⟨m, hm, hsending, hcomplete⟩
    refine Does.next (deliverEach_does hc hs) (fun x t ht => ?_) fun _ _ h => ?_
    · obtain ⟨m, hm, delivered, failure, heq, hsending, hcomplete⟩ := ht
      cases Except.ok.inj heq
      cases failure with
      | some e =>
        refine Does.next (undoDeliveries_does hc ⟨m, hm, hsending.1⟩) (fun e' t ht => ?_)
          fun _ _ h => ?_
        · exact cleanUp_throw hc (ht.imp fun _ h => ⟨h.1, h.2.2⟩)
        · obtain ⟨_, hr⟩ := h.1
          cases hr
      | none =>
        refine Does.outcome (auditLog_does hc ⟨m, hm, rfl⟩) fun r t ht => ?_
        obtain ⟨m', hm', rfl⟩ := ht
        cases r with
        | error e => exact cleanUp_throw hc ⟨m', hm', hsending.1⟩
        | ok _ => exact Does.ret ⟨m', hm', _, hsending.2, rfl, htarget, husers ▸ hcomplete rfl⟩
    · obtain ⟨_, _, hr, _⟩ := h
      cases hr

end

end MailBroadcast

/-- The call has left nothing. -/
structure NothingLeft (w₀ w : InternalMailWorld) : Prop where
  mails : w.world.db.mails = w₀.world.db.mails
  internalMails : w.internalMails = w₀.internalMails
  deliveries : w.deliveries = w₀.deliveries
  attachments : w.attachments = w₀.attachments
  shared : ∀ key, w.shared.lookup key = w₀.shared.lookup key

/-- The internal mail is there, and each recipient has one more mail and one record of it. -/
def EachHasOne (cfg : Config) (dto : SendAdminMailDto) (w₀ : InternalMailWorld) (mailId : Id)
    (w : InternalMailWorld) : Prop :=
  ∃ row, w.internalMails = row :: w₀.internalMails ∧ row.id = mailId ∧
    AdminMailsService.resolveTargetAddress cfg dto = .ret row.target ∧
      ∀ u ∈ w₀.recipients cfg row.target,
      ∃ c, w.world.db.mails.filter (·.userId == u.id) = c ::
        w₀.world.db.mails.filter (·.userId == u.id) ∧
        w.deliveries.filter (fun d => d.internalMailId == mailId && d.userId == u.id) =
          [⟨mailId, u.id, some c.id, none⟩]

section
variable (cfg : Config) (adminUserId : Id) (dto : SendAdminMailDto)
  (attachments : List UploadedAttachment)

/-- Nothing is left of a call that throws, and a call that returns has served each recipient. -/
def AllOrNothing (u : InternalMailShared) : Prop :=
  ∀ p r t, Ends (internalMails cfg) oneFault p
    (AdminMailsService.sendMail cfg adminUserId dto attachments) u r t →
    match r with
    | .error _ => NothingLeft u.store t.store
    | .ok sent => EachHasOne cfg dto u.store sent.mailId t.store

end

namespace MailBroadcast
section
variable {cfg : Config} {w₀ w : InternalMailWorld} {m : Made}

theorem Progress.nothingLeft (h : Progress w₀ nothing w) : NothingLeft w₀ w :=
  ⟨h.mails, h.internalMails, h.deliveries, h.attachments,
    fun key => h.shared key (List.not_mem_nil)⟩

/-- Among values that are all different, a member is the one that is equal to itself. -/
theorem filter_single {α β : Type} [DecidableEq β] {f : α → β} {xs : List α} {x : α} (hx : x ∈ xs)
    (hnodup : (xs.map f).Nodup) :
    xs.filter (f · == f x) = [x] := by
  induction xs with
  | nil => cases hx
  | cons y ys ih =>
    rw [List.map_cons, List.nodup_cons] at hnodup
    rcases List.mem_cons.mp hx with rfl | hx
    · rw [List.filter_cons_of_pos (by exact beq_self_eq_true (f x))]
      congr 1
      refine List.filter_eq_nil_iff.mpr fun z hz heq =>
        hnodup.1 (List.mem_map.mpr ⟨z, hz, beq_iff_eq.mp heq⟩)
    · have hne : f y ≠ f x := fun heq => hnodup.1 (heq ▸ List.mem_map_of_mem hx)
      rw [List.filter_cons_of_neg (by simpa using hne)]
      exact ih hx hnodup.2

theorem recipients_nodup (hc : Consistent w₀) (target : InternalMailTarget) :
    ((w₀.recipients cfg target).map (·.id)).Nodup := by
  refine hc.users.sublist (List.Sublist.map _ ?_)
  unfold InternalMailWorld.recipients
  split
  · exact List.filter_sublist
  · cases hfind : w₀.world.db.users.find? _ with
    | none => exact List.nil_sublist _
    | some u => exact List.singleton_sublist.mpr (List.mem_of_find?_eq_some hfind)

/-- Each recipient has one of the copies. -/
theorem Complete.copy {users : List User} {id : Id} (h : Complete id users m)
    (hnodup : (users.map (·.id)).Nodup) {u : User} (hu : u ∈ users) :
    ∃ c, m.copies.filter (·.userId == u.id) = [c] ∧ c.userId = u.id := by
  have hmem : u.id ∈ m.copies.map (·.userId) := by
    rw [h.users]
    exact List.mem_reverse.mpr (List.mem_map_of_mem hu)
  obtain ⟨c, hc, huser⟩ := List.mem_map.mp hmem
  refine ⟨c, ?_, huser⟩
  rw [← huser]
  refine filter_single hc ?_
  rw [h.users]
  exact List.nodup_reverse.mpr hnodup

theorem Progress.eachHasOne (h : Progress w₀ m w) (hc : Consistent w₀) {dto : SendAdminMailDto}
    {row : InternalMail} (hrow : m.row = some row)
    (htarget : AdminMailsService.resolveTargetAddress cfg dto = .ret row.target)
    (hcomplete : Complete row.id (w₀.recipients cfg row.target) m) :
    EachHasOne cfg dto w₀ row.id w := by
  refine ⟨row, by rw [h.internalMails, hrow]; rfl, rfl, htarget, fun u hu => ?_⟩
  obtain ⟨c, hfilter, huser⟩ := hcomplete.copy (recipients_nodup hc row.target) hu
  refine ⟨c, by rw [h.mails, List.filter_append, hfilter]; rfl, ?_⟩
  have hnew : w₀.world.nextId ≤ row.id := h.rowIds row hrow
  have hold : w₀.deliveries.filter (fun d => d.internalMailId == row.id && d.userId == u.id) =
      [] := by
    refine List.filter_eq_nil_iff.mpr fun d hd heq => ?_
    have hid : d.internalMailId = row.id := by simpa using (Bool.and_eq_true_iff.mp heq).1
    exact absurd (hc.deliveries d hd) (Nat.not_lt.mpr (hid ▸ hnew))
  rw [h.deliveries, List.filter_append, hold, List.append_nil, hcomplete.deliveries,
    List.filter_map]
  have hsame : ((fun d : InternalMailDelivery => d.internalMailId == row.id && d.userId == u.id) ∘
      fun c : Mail => ⟨row.id, c.userId, some c.id, none⟩) = fun c : Mail => c.userId == u.id := by
    funext c
    simp
  rw [hsame, hfilter, List.map_singleton, huser]

end
end MailBroadcast

/-- No mails yet. -/
def demoMails : InternalMailWorld := ⟨demoWorld, [], [], [], ∅⟩

def demoBroadcast : SendAdminMailDto :=
  ⟨"admin", none, [], true, "Maintenance", "Tonight", false, none, []⟩

end Redbox
