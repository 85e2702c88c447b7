import Redbox.Accounts.CachedKeys

/-! The master key of a user under his password, over registrations, logins and changes of passwords
one at a time. The log says which key a registration drew and which password was set last. -/
namespace Redbox
open Interleaving

namespace MasterKeys

/-- bcryptjs compares the first 72 bytes of the text in UTF-8. -/
def comparedBytes (secret : String) : List UInt8 := secret.toUTF8.toList.take 72

/-- What the services rely on: bcrypt up to its limit, and decryption as the inverse of encryption
under one secret. -/
structure PasswordCrypto (cfg : Config) : Prop where
  compare : ∀ secret set salt, cfg.bcryptCompare secret (cfg.bcryptHash set salt) =
    decide (comparedBytes secret = comparedBytes set)
  decrypt : ∀ secret key iv salt, cfg.decryptMasterKey secret
    (cfg.encryptMasterKey secret key iv salt) = some key

/-- The request that is served. -/
def served : List AccountEvent → Option AccountOperation
  | [] => none
  | ⟨_, .receive op, _⟩ :: _ => some op
  | _ :: log => served log

/-- What has been drawn for it, the first bytes first. -/
def drawn : List AccountEvent → List Id
  | [] => []
  | ⟨_, .receive _, _⟩ :: _ => []
  | ⟨_, .backend .random, .ok bytes⟩ :: log => drawn log ++ [bytes]
  | _ :: log => drawn log

/-- The user who is registered by a call. -/
def registers : AccountEvent → Option Id
  | ⟨_, .registerUser _ _, .ok user⟩ => some user.id
  | _ => none

/-- The user whose password is set by a call. -/
def sets : AccountEvent → Option Id
  | ⟨_, .registerUser _ _, .ok user⟩ => some user.id
  | ⟨_, .backend (.statement (.updatePassword id _ _)), .ok _⟩ => some id
  | _ => none

def newPassword : AccountOperation → Option String
  | .register dto => some dto.password
  | .base (.changePassword _ dto) => some dto.newPassword
  | .base (.recoverPassword dto) => some dto.newPassword
  | _ => none

/-- The password of the user that was set last. -/
def lastSet (userId : Id) : List AccountEvent → Option String
  | [] => none
  | e :: log => if sets e = some userId then (served log).bind newPassword else lastSet userId log

structure Registration where
  masterKey : String
  recoveryPhrase : String

/-- The first bytes that a registration draws are the master key. -/
def registrationOf (log : List AccountEvent) : Option Registration :=
  match served log, drawn log with
  | some (.register dto), bytes :: _ => some ⟨hexOf bytes, dto.recoveryPhrase⟩
  | _, _ => none

def registration (userId : Id) : List AccountEvent → Option Registration
  | [] => none
  | e :: log => if registers e = some userId then registrationOf log else registration userId log

/-- A text that is the one set, or that bcrypt can tell from it. -/
def told (text : String → String) (presented set : String) : Bool :=
  presented == set || comparedBytes (text presented) != comparedBytes (text set)

/-- The passwords and phrases of a request are those set, or bcrypt can tell that they are not. -/
def recognised (cfg : Config) (s : SharedAccounts) : AccountOperation → Bool
  | .base (.login dto) => (s.store.db.findUsername cfg.sameName dto.username).all fun user =>
    (lastSet user.id s.log).all (told id dto.password)
  | .internalLogin dto => (s.store.db.findUsername cfg.sameName dto.username).all fun user =>
    (lastSet user.id s.log).all (told id dto.password)
  | .base (.changePassword payload dto) => (lastSet payload.sub s.log).all (told id dto.oldPassword)
  | .base (.recoverPassword dto) =>
    (s.store.db.findUsername cfg.sameName dto.username).all fun user =>
    (registration user.id s.log).all fun r => told cfg.sha256 dto.recoveryPhrase r.recoveryPhrase
  | _ => true

def concernsPasswords : AccountOperation → Bool
  | .register _ | .internalLogin _ | .base (.login _) | .base (.changePassword _ _) | .base (.recoverPassword _) =>
    true
  | _ => false

/-- These requests, with tokens that were signed. Calls are delivered, or fail without effect. -/
def passwordRequests : AccountRules where
  starts := fun s op => op.tokenKnown s.log && concernsPasswords op
  allows := fun _ _ _ d => decide (d = .delivered ∨ d = .failed)
  drifts := fun _ _ => true

/-- The same with passwords and phrases that bcrypt recognises. -/
def rules (cfg : Config) : AccountRules :=
  { passwordRequests with starts :=
    fun s op => passwordRequests.starts s op && recognised cfg s op }

/-- The check accepts the password, and the routine's decryption gives the key of the registration.
-/
def Opens (cfg : Config) (log : List AccountEvent) (password : String)
    (decrypt : Option MasterKeyStore → Routine String) (user : User) : Prop :=
  cfg.bcryptCompare password user.password = true →
    ∃ r, registration user.id log = some r ∧ decrypt user.masterKeyStore = .ret r.masterKey

/-- A request that the check of its password lets pass gets the master key. -/
def Unlocks (cfg : Config) (s : SharedAccounts) : AccountOperation → Prop
  | .base (.login dto) => ∀ user, s.store.db.findUsername cfg.sameName dto.username = some user →
    Opens cfg s.log dto.password (AuthService.decryptMasterKey cfg dto.password) user
  | .internalLogin dto => ∀ user, s.store.db.findUsername cfg.sameName dto.username = some user →
    Opens cfg s.log dto.password (InternalAuthService.decryptMasterKey cfg dto.password) user
  | .base (.changePassword payload dto) => ∀ user, s.store.db.findUser payload.sub = some user →
    Opens cfg s.log dto.oldPassword (AuthService.decryptMasterKey cfg dto.oldPassword) user
  | _ => True

/-- The store of the user protects the key of his registration, under the password that was set
last. -/
def Protected (cfg : Config) (log : List AccountEvent) (user : User) : Prop :=
  ∃ r password, registration user.id log = some r ∧ lastSet user.id log = some password ∧
    AuthService.decryptMasterKey cfg password user.masterKeyStore = .ret r.masterKey

/-- Whenever no request is in progress, the keys are protected, and those that come next get them.
-/
def MasterKeyKept (cfg : Config) (R : AccountRules) (w : World) : Prop :=
  ∀ as s, (accounts cfg).runAlone R (.initial w) as = some s → s.idle = true →
    (∀ id user, s.shared.store.db.findUser id = some user → Protected cfg s.shared.log user) ∧
      ∀ op, R.starts s.shared op = true → Unlocks cfg s.shared op

/-- What is known of a user's row. -/
structure Kept (cfg : Config) (log : List AccountEvent) (user : User) : Prop where
  password : ∃ set salt, lastSet user.id log = some set ∧ user.password = cfg.bcryptHash set salt ∧
    ∃ r iv salt, registration user.id log = some r ∧
      user.masterKeyStore = some (cfg.encryptMasterKey set r.masterKey iv salt)
  recovery : ∃ r salt, registration user.id log = some r ∧
    user.recoveryPhraseHash = cfg.bcryptHash (cfg.sha256 r.recoveryPhrase) salt ∧
    ∃ iv salt, user.recoveryMasterKeyStore = cfg.encryptMasterKey r.recoveryPhrase
      r.masterKey iv salt

structure Inv (cfg : Config) (s : SharedAccounts) : Prop where
  users : CachedKeys.UsersDrawn s.store.db s.store.nextId
  kept : ∀ id user, s.store.db.findUser id = some user → Kept cfg s.log user

variable {cfg : Config} {s t : SharedAccounts} {p : Nat}

/-- A call that neither sets a password nor begins another request. -/
def neutral : AccountRequest → Bool
  | .backend (.statement (.updatePassword _ _ _)) => false
  | .backend _ | .inviteCode _ => true
  | _ => false

theorem neutral_event {q : AccountRequest} (hq : neutral q = true) (r : AccountReply q) :
    sets ⟨p, q, r⟩ = none ∧ registers ⟨p, q, r⟩ = none := by
  cases q with
  | backend q =>
    cases q with
    | statement w =>
      cases w with
      | updatePassword id password store => cases hq
      | _ => exact ⟨rfl, rfl⟩
    | _ => exact ⟨rfl, rfl⟩
  | inviteCode code => exact ⟨rfl, rfl⟩
  | _ => cases hq

theorem served_neutral {q : AccountRequest} (hq : neutral q = true) (r : AccountReply q)
    (log : List AccountEvent) :
    served (⟨p, q, r⟩ :: log) = served log := by
  cases q with
  | receive op => cases hq
  | _ => rfl

theorem drawn_neutral {q : AccountRequest} (hq : neutral q = true) (r : AccountReply q)
    {log : List AccountEvent} {bytes : Id} (h : (drawn log).head? = some bytes) :
    (drawn (⟨p, q, r⟩ :: log)).head? = some bytes := by
  cases q with
  | receive op => cases hq
  | backend q =>
    cases q with
    | random =>
      cases r with
      | ok b =>
        change (drawn log ++ [b]).head? = some bytes
        rw [List.head?_append, h]
        rfl
      | error e => exact h
    | _ => exact h
  | _ => exact h

theorem lastSet_cons {e : AccountEvent} {userId : Id} {log : List AccountEvent}
    (h : sets e ≠ some userId) :
    lastSet userId (e :: log) = lastSet userId log := if_neg h

theorem registration_cons {e : AccountEvent} {userId : Id} {log : List AccountEvent}
    (h : registers e ≠ some userId) :
    registration userId (e :: log) = registration userId log := if_neg h

/-- Rows with the same secrets. -/
structure SameSecrets (u u' : User) : Prop where
  id : u'.id = u.id
  password : u'.password = u.password
  masterKeyStore : u'.masterKeyStore = u.masterKeyStore
  recoveryPhraseHash : u'.recoveryPhraseHash = u.recoveryPhraseHash
  recoveryMasterKeyStore : u'.recoveryMasterKeyStore = u.recoveryMasterKeyStore

theorem SameSecrets.refl (u : User) : SameSecrets u u := ⟨rfl, rfl, rfl, rfl, rfl⟩

theorem Kept.congr {log log' : List AccountEvent} {u u' : User} (h : Kept cfg log u)
    (hsame : SameSecrets u u') (hlast : lastSet u.id log' = lastSet u.id log)
    (hregistration : registration u.id log' = registration u.id log) :
    Kept cfg log' u' := by
  obtain ⟨⟨set, salt, hset, hhash, r, iv, salt', hr, hstore⟩, r', salt₂, hr', hphrase, iv', salt₃,
    hrecovery⟩ := h
  constructor
  · exact ⟨set, salt, by rw [hsame.id, hlast, hset], by rw [hsame.password, hhash], r, iv, salt',
      by rw [hsame.id, hregistration, hr], by rw [hsame.masterKeyStore, hstore]⟩
  · exact ⟨r', salt₂, by rw [hsame.id, hregistration, hr'], by
      rw [hsame.recoveryPhraseHash, hphrase], iv', salt₃,
      by rw [hsame.recoveryMasterKeyStore, hrecovery]⟩

theorem sameSecrets_onUser {w : Statement} (hw : neutral (.backend (.statement w)) = true)
    (fresh : Id) (u : User) :
    SameSecrets u (w.onUser fresh u) := by
  cases w with
  | updatePassword id password store => cases hw
  | swapSessionKey table id key =>
    cases table with
    | adminUser => exact .refl u
    | user =>
      simp only [Statement.onUser]
      split
      · exact ⟨rfl, rfl, rfl, rfl, rfl⟩
      · exact .refl u
  | rotateSessionKey table id =>
    cases table with
    | adminUser => exact .refl u
    | user =>
      simp only [Statement.onUser]
      split
      · exact ⟨rfl, rfl, rfl, rfl, rfl⟩
      · exact .refl u
  | _ =>
    simp only [Statement.onUser]
    first
    | exact .refl u
    | split
      · exact ⟨rfl, rfl, rfl, rfl, rfl⟩
      · exact .refl u

/-- A neutral call changes the secrets of no row. -/
theorem findUser_neutral {w : World} {q : AccountRequest} (hq : neutral q = true) {id : Id}
    {u' : User} (h : (w.deliverAccount cfg q).1.db.findUser id = some u') :
    ∃ u, w.db.findUser id = some u ∧ SameSecrets u u' := by
  cases q with
  | backend q =>
    obtain hdb | ⟨st, db', a, rfl, hperform, hstore, -⟩ := w.deliver_db cfg q
    · have hsame : (w.deliverAccount cfg (.backend q)).1.db = w.db := hdb
      exact ⟨u', hsame ▸ h, .refl u'⟩
    · have hdb : (w.deliverAccount cfg (.backend (.statement st))).1.db = db' :=
        congrArg World.db hstore
      rw [hdb, Database.findUser_perform hperform] at h
      obtain ⟨u, hu, rfl⟩ := Option.map_eq_some_iff.mp h
      exact ⟨u, hu, sameSecrets_onUser hq _ u⟩
  | inviteCode code => exact ⟨u', h, .refl u'⟩
  | _ => cases hq

/-- A call is delivered, or it fails without effect. -/
theorem after_cases {q : AccountRequest} {d : Delivery} (h : d = .delivered ∨ d = .failed) :
    ((accounts cfg).after d p q t = ⟨(t.store.deliverAccount cfg q).1,
      ⟨p, q, (t.store.deliverAccount cfg q).2⟩ :: t.log⟩ ∧
      (accounts cfg).reply d q t = (t.store.deliverAccount cfg q).2) ∨
    ∃ e, (accounts cfg).after d p q t = ⟨t.store, ⟨p, q, .error e⟩ :: t.log⟩ ∧
      (accounts cfg).reply d q t = .error e := by
  rcases h with rfl | rfl
  · exact .inl ⟨accounts_delivered cfg t p q, accounts_reply cfg t q⟩
  · cases q with
    | receive op => exact .inl ⟨rfl, rfl⟩
    | _ => exact .inr ⟨_, rfl, rfl⟩

theorem Inv.neutral (ht : Inv cfg t) {q : AccountRequest} (hq : neutral q = true) {d : Delivery}
    (hd : d = .delivered ∨ d = .failed) :
    Inv cfg ((accounts cfg).after d p q t) := by
  have hlast : ∀ (r : AccountReply q) u, lastSet u (⟨p, q, r⟩ :: t.log) = lastSet u t.log := by
    intro r u
    apply lastSet_cons
    rw [(neutral_event hq r).1]
    exact Option.some_ne_none u |>.symm
  have hregistration : ∀ (r : AccountReply q) u,
      registration u (⟨p, q, r⟩ :: t.log) = registration u t.log := by
    intro r u
    apply registration_cons
    rw [(neutral_event hq r).2]
    exact Option.some_ne_none u |>.symm
  rcases after_cases hd with ⟨hafter, -⟩ | ⟨e, hafter, -⟩
  · rw [hafter]
    refine ⟨CachedKeys.usersDrawn_deliverAccount ht.users, fun id user hrow => ?_⟩
    obtain ⟨u, hu, hsame⟩ := findUser_neutral hq hrow
    exact (ht.kept id u hu).congr hsame (hlast _ _) (hregistration _ _)
  · rw [hafter]
    exact ⟨ht.users, fun id user hrow => (ht.kept id user hrow).congr (.refl user) (hlast _ _)
      (hregistration _ _)⟩

theorem Inv.moved (ht : Inv cfg t) (n : Nat) : Inv cfg ((accounts cfg).moved n t) :=
  ⟨ht.users, ht.kept⟩

/-- A request is served, the passwords and registrations are those from its beginning, and it has
drawn its first bytes. -/
structure During (cfg : Config) (op : AccountOperation) (last : Id → Option String)
    (registered : Id → Option Registration) (first : Option Id) (t : SharedAccounts) : Prop where
  inv : Inv cfg t
  served : served t.log = some op
  last : ∀ u, lastSet u t.log = last u
  registered : ∀ u, registration u t.log = registered u
  first : ∀ bytes, first = some bytes → (drawn t.log).head? = some bytes

section
variable {op : AccountOperation} {last : Id → Option String} {registered : Id →
  Option Registration} {first : Option Id}

theorem During.neutral (ht : During cfg op last registered first t) {q : AccountRequest}
    (hq : neutral q = true) {d : Delivery} (hd : d = .delivered ∨ d = .failed) :
    During cfg op last registered first ((accounts cfg).after d p q t) := by
  have hlog : ∃ r, ((accounts cfg).after d p q t).log = ⟨p, q, r⟩ :: t.log := ⟨_, rfl⟩
  have hinv : Inv cfg ((accounts cfg).after d p q t) := ht.inv.neutral hq hd
  obtain ⟨r, hr⟩ := hlog
  obtain ⟨hsets, hregisters⟩ := neutral_event (p := p) hq r
  refine ⟨hinv, ?_, fun u => ?_, fun u => ?_, fun bytes hb => ?_⟩
  · rw [hr, served_neutral hq, ht.served]
  · rw [hr, lastSet_cons (by rw [hsets]; exact (Option.some_ne_none u).symm), ht.last]
  · rw [hr, registration_cons (by rw [hregisters]; exact (Option.some_ne_none u).symm),
      ht.registered]
  · rw [hr]
    exact drawn_neutral hq r (ht.first bytes hb)

theorem During.moved (ht : During cfg op last registered first t) (n : Nat) :
    During cfg op last registered first ((accounts cfg).moved n t) :=
  ⟨ht.inv.moved n, ht.served, ht.last, ht.registered, ht.first⟩

theorem During.stable {R : AccountRules} :
    Stable (accounts cfg) R (.alone p) p (During cfg op last registered first) :=
  .alone fun _ n _ h => h.moved n

theorem Inv.stable {R : AccountRules} : Stable (accounts cfg) R (.alone p) p (Inv cfg) :=
  .alone fun _ n _ h => h.moved n

theorem allowed {d : Delivery} {q : AccountRequest} (h : (rules cfg).allows t p q d = true) :
    d = .delivered ∨ d = .failed :=
  of_decide_eq_true h

/-- A routine of neutral calls. -/
theorem keeps_inv {α : Type} {x : AccountRoutine α} (hx : x.Calls fun q => neutral q = true)
    (ht : Inv cfg t) :
    Meets (accounts cfg) (rules cfg) (.alone p) p x (fun _ t => Inv cfg t) t :=
  Meets.frame hx Inv.stable (fun _ _ _ hq _ ha h => ⟨rfl, h.neutral hq (allowed ha)⟩) ht

theorem keeps_during {α : Type} {x : AccountRoutine α} (hx : x.Calls fun q => neutral q = true)
    (ht : During cfg op last registered first t) :
    Meets (accounts cfg) (rules cfg)
    (.alone p) p x (fun _ t => During cfg op last registered first t) t :=
  Meets.frame hx During.stable (fun _ _ _ hq _ ha h => ⟨rfl, h.neutral hq (allowed ha)⟩) ht

/-- What a request has to end in. -/
abbrev Restored {α : Type} (cfg : Config) (p : Nat) (x : AccountRoutine α)
    (t : SharedAccounts) : Prop :=
  Meets (accounts cfg) (rules cfg) (.alone p) p x (fun _ t => Inv cfg t) t

theorem restored_ret {α : Type} {a : α} (ht : Inv cfg t) : Restored cfg p (.ret a) t :=
  Meets.ret Inv.stable ht fun _ h _ => h

theorem restored_throw {α : Type} {e : Thrown} (ht : Inv cfg t) :
    Restored cfg p (.throw e : AccountRoutine α) t :=
  Meets.throw Inv.stable ht fun _ h _ => h

/-- Neutral calls in front of the rest of a request. -/
theorem during_bind {α β : Type} {x : AccountRoutine α} {f : α → AccountRoutine β}
    (hx : x.Calls fun q => neutral q = true) (ht : During cfg op last registered first t)
    (hf : ∀ a t, During cfg op last registered first t → Restored cfg p (f a) t) :
    Restored cfg p (x.bind f) t :=
  (keeps_during hx ht).next (fun _ _ _ h => h.inv) fun a t _ h => hf a t h

end

theorem neutral_of_harmless {q : Request} (h : q.harmless = true) :
    neutral (.backend q) = true := by
  cases q with
  | statement w => cases h
  | _ => rfl

/-- A statement of another kind does not set a password. -/
theorem neutral_of_within (kinds : List RequestKind) (hkinds : .endSession ∉ kinds) {q : Request}
    (h : Within kinds q) :
    neutral (.backend q) = true := by
  cases q with
  | statement w =>
    cases w with
    | updatePassword id password store =>
      rcases h with h | h
      · cases h
      · exact absurd h hkinds
    | _ => rfl
  | _ => rfl

theorem login_neutral {dto : LoginDto} :
    (lift (AuthService.login cfg dto)).Calls fun q => neutral q = true :=
  lift_calls (fun _ hq => neutral_of_within [.processDeletion, .reactivate, .sign] (by decide) hq)
    (AuthService.login_calls (by decide) (by decide) (by decide))

theorem internalLogin_neutral {dto : InternalLoginDto} :
    (lift (InternalAuthService.login cfg dto)).Calls fun q => neutral q = true := by
  refine lift_calls (fun _ hq => neutral_of_within [.processDeletion, .reactivate,
    .sign] (by decide) hq) ?_
  refine .bind (await_plain rfl) fun user => ?_
  cases user with
  | none => trivial
  | some user =>
    refine .bind .throwIf fun _ => .bind
      (UsersService.assertUserCanLogin_calls (by decide) (by decide)) fun _ => ?_
    refine .bind (await_plain rfl) fun authenticatedUser => ?_
    cases authenticatedUser with
    | none => trivial
    | some authenticatedUser =>
      refine .bind (UsersService.assertUserCanLogin_calls (by decide) (by decide)) fun _ => ?_
      refine .bind internalDecryptMasterKey_calls fun _ => .bind (await_plain rfl) fun _ => ?_
      exact AuthService.getTokens_calls (by decide)

theorem told_eq {text : String → String} {presented set : String}
    (h : told text presented set = true)
    (hbytes : comparedBytes (text presented) = comparedBytes (text set)) : presented = set := by
  simpa [told, hbytes] using h

section
variable {log : List AccountEvent} {user : User} {password phrase : String}

theorem decryptMasterKey_ret {store : MasterKeyStore} {key : String}
    (h : cfg.decryptMasterKey password store = some key) :
    AuthService.decryptMasterKey cfg password (some store) = .ret key ∧
      InternalAuthService.decryptMasterKey cfg password (some store) = .ret key := by
  unfold AuthService.decryptMasterKey InternalAuthService.decryptMasterKey
  simp only [h]
  exact ⟨rfl, rfl⟩

theorem decryptMasterKey_none {store : MasterKeyStore}
    (h : cfg.decryptMasterKey password store = none) (key : String) :
    AuthService.decryptMasterKey cfg password (some store) ≠ .ret key := by
  unfold AuthService.decryptMasterKey
  simp only [h]
  exact fun hret => by cases hret

/-- A password that bcrypt accepts and that it can tell from others is the one set. -/
theorem Kept.accepted (crypto : PasswordCrypto cfg) (hk : Kept cfg log user)
    (htold : (lastSet user.id log).all (told id password) = true)
    (haccepted : cfg.bcryptCompare password user.password = true) :
    ∃ r, registration user.id log = some r ∧
    AuthService.decryptMasterKey cfg password user.masterKeyStore = .ret r.masterKey ∧
      InternalAuthService.decryptMasterKey cfg password user.masterKeyStore = .ret r.masterKey := by
  obtain ⟨set, salt, hset, hhash, r, iv, salt', hr, hstore⟩ := hk.password
  rw [hset, Option.all_some] at htold
  rw [hhash, crypto.compare, decide_eq_true_eq] at haccepted
  obtain rfl : password = set := told_eq htold haccepted
  rw [hstore]
  exact ⟨r, hr, decryptMasterKey_ret (crypto.decrypt _ _ _ _)⟩

theorem Kept.recovered (crypto : PasswordCrypto cfg) (hk : Kept cfg log user)
    (htold : (registration user.id log).all (fun r => told cfg.sha256 phrase r.recoveryPhrase) =
      true) (haccepted : cfg.bcryptCompare (cfg.sha256 phrase) user.recoveryPhraseHash = true) :
    ∃ r, registration user.id log = some r ∧
      AuthService.decryptMasterKey cfg phrase (some user.recoveryMasterKeyStore) =
        .ret r.masterKey := by
  obtain ⟨r, salt, hr, hhash, iv, salt', hstore⟩ := hk.recovery
  rw [hr, Option.all_some] at htold
  rw [hhash, crypto.compare, decide_eq_true_eq] at haccepted
  obtain rfl : phrase = r.recoveryPhrase := told_eq htold haccepted
  rw [hstore]
  exact ⟨r, hr, (decryptMasterKey_ret (crypto.decrypt _ _ _ _)).1⟩

end

section
variable {α β : Type} {op : AccountOperation} {last : Id → Option String} {registered : Id →
  Option Registration}
  {first : Option Id} {bytes : Id}

/-- A call of a routine of the backend, in front of its rest. -/
theorem lifted_await {q : Request} {f : q.Answer → Routine α} {F : SharedAccounts → Prop}
    (hF : Stable (accounts cfg) (rules cfg) (.alone p) p F) (ht : F t)
    (h : ∀ t, F t → ∀ d, d = .delivered ∨ d = .failed →
      (∀ a, (accounts cfg).reply d (.backend q) t = .ok a →
        Restored cfg p (lift (f a)) ((accounts cfg).after d p (.backend q) t)) ∧
      Inv cfg ((accounts cfg).after d p (.backend q) t)) :
        Restored cfg p (lift ((await q).bind f)) t := by
  refine Meets.call hF ht fun t ht _ d ha => ⟨rfl, ?_⟩
  obtain ⟨hok, herror⟩ := h t ht d (allowed ha)
  cases hr : (accounts cfg).reply d (.backend q) t with
  | ok a => exact hok a hr
  | error e => exact restored_throw herror

theorem lifted_throwIf {c : Prop} [Decidable c] {e : Thrown} {f : Unit → Routine α} (ht : Inv cfg t)
    (h : ¬ c → Restored cfg p (lift (f ())) t) :
    Restored cfg p (lift ((Prog.throwIf c e).bind f)) t := by
  unfold Prog.throwIf
  split
  · exact restored_throw ht
  · exact h ‹_›

/-- A call without effect on passwords, in front of the rest of a request. -/
theorem during_call {q : Request} {f : q.Answer → AccountRoutine α}
    (hq : neutral (.backend q) = true) (ht : During cfg op last registered first t)
    (h : ∀ a t, During cfg op last registered first t → Restored cfg p (f a) t) :
    Restored cfg p ((lift (await q)).bind f) t :=
  during_bind (lift_calls (P := fun q => neutral (.backend q) = true) (fun _ hq => hq) (.await hq))
    ht h

theorem during_store {secret key : String} {f : MasterKeyStore → AccountRoutine α}
    (ht : During cfg op last registered first t)
    (h : ∀ iv salt t, During cfg op last registered first t →
      Restored cfg p (f (cfg.encryptMasterKey secret key iv salt)) t) :
    Restored cfg p ((lift (AuthService.generateMasterKeyStore cfg secret key)).bind f) t := by
  unfold AuthService.generateMasterKeyStore lift
  simp only [Prog.bind_eq, Prog.pure_eq, Prog.expand_bind, Prog.bind_assoc, Prog.expand_ret,
    Prog.ret_bind]
  refine during_call rfl ht fun iv t ht => ?_
  exact during_call rfl ht fun salt t ht => h iv salt t ht

theorem during_hash {secret : String} {f : String → AccountRoutine α}
    (ht : During cfg op last registered first t)
    (h : ∀ salt t, During cfg op last registered first t →
      Restored cfg p (f (cfg.bcryptHash secret salt)) t) :
    Restored cfg p ((lift (AuthService.hash cfg secret)).bind f) t := by
  unfold AuthService.hash lift
  simp only [Prog.bind_eq, Prog.pure_eq, Prog.expand_bind, Prog.bind_assoc, Prog.expand_ret,
    Prog.ret_bind]
  exact during_call rfl ht fun salt t ht => h salt t ht

/-- A change of the password to the one of the request, with the key of the registration under it.
-/
theorem During.updated (ht : During cfg op last registered first t) {userId : Id} {set : String}
    {r : Registration} (hset : newPassword op = some set) (hr : registered userId = some r)
    (salt iv salt' : Id) {d : Delivery} (hd : d = .delivered ∨ d = .failed) :
    Inv cfg ((accounts cfg).after d p
      (.backend (.statement (.updatePassword userId (cfg.bcryptHash set salt)
        (cfg.encryptMasterKey set r.masterKey iv salt')))) t) := by
  have failed : ∀ w : World, w = t.store → ∀ e,
      Inv cfg ⟨w, ⟨p, .backend (.statement (.updatePassword userId (cfg.bcryptHash set salt)
        (cfg.encryptMasterKey set r.masterKey iv salt'))), .error e⟩ :: t.log⟩ := by
    rintro w rfl e
    exact ⟨ht.inv.users, fun id user hrow => (ht.inv.kept id user hrow).congr (.refl user) rfl rfl⟩
  rcases after_cases hd with ⟨hafter, -⟩ | ⟨e, hafter, -⟩
  · rw [hafter]
    have husers : ∀ q, CachedKeys.UsersDrawn (t.store.deliverAccount cfg q).1.db
        (t.store.deliverAccount cfg q).1.nextId :=
      fun _ => CachedKeys.usersDrawn_deliverAccount ht.inv.users
    specialize husers (.backend (.statement (.updatePassword userId (cfg.bcryptHash set salt)
      (cfg.encryptMasterKey set r.masterKey iv salt'))))
    simp only [World.deliverAccount, World.deliver] at husers ⊢
    cases hperform : t.store.db.perform cfg t.store.clock t.store.nextId
      (.updatePassword userId (cfg.bcryptHash set salt)
        (cfg.encryptMasterKey set r.masterKey iv salt')) with
    | error e => exact failed _ rfl e
    | ok result =>
      obtain ⟨db, a⟩ := result
      rw [hperform] at husers
      refine ⟨husers, fun id user hrow => ?_⟩
      have hrow' : db.findUser id = some user := hrow
      rw [Database.findUser_perform hperform] at hrow'
      obtain ⟨u, hu, rfl⟩ := Option.map_eq_some_iff.mp hrow'
      have hkept := ht.inv.kept id u hu
      by_cases hid : u.id = userId
      · subst hid
        simp only [Statement.onUser]
        obtain ⟨r', salt₂, hr', hphrase, hrecovery⟩ := hkept.recovery
        constructor
        · refine ⟨set, salt, ?_, rfl, r, iv, salt', ?_, rfl⟩
          · refine (if_pos rfl).trans ?_
            rw [ht.served, Option.bind_some, hset]
          · exact (ht.registered u.id).trans hr
        · exact ⟨r', salt₂, hr', hphrase, hrecovery⟩
      · simp only [Statement.onUser, if_neg hid]
        refine hkept.congr (.refl u) (if_neg fun h => ?_) rfl
        exact hid (Option.some.inj h).symm
  · rw [hafter]
    exact failed _ rfl e

/-- The new store and hash of a request, and what it goes on with. -/
theorem lifted_update (ht : During cfg op last registered first t) {userId : Id} {set : String}
    {r : Registration} (hset : newPassword op = some set) (hr : registered userId = some r)
    {f : Id → Routine α} (hf : ∀ a, (lift (f a)).Calls fun q => neutral q = true) :
    Restored cfg p (lift ((AuthService.generateMasterKeyStore cfg set r.masterKey).bind fun store =>
      (AuthService.hash cfg set).bind fun password =>
        (await (.statement (.updatePassword userId password store))).bind f)) t := by
  rw [lift, Prog.expand_bind]
  refine during_store ht fun iv salt t ht => ?_
  rw [Prog.expand_bind]
  refine during_hash ht fun salt' t ht => ?_
  refine lifted_await During.stable ht fun t ht d hd => ?_
  have hinv := ht.updated (p := p) hset hr salt' iv salt hd
  exact ⟨fun a _ => keeps_inv (hf a) hinv, hinv⟩

theorem changePassword_restores (crypto : PasswordCrypto cfg) {userId : Id}
    {dto : ChangePasswordDto} (ht : During cfg op last registered first t)
    (hset : newPassword op = some dto.newPassword)
    (htold : (last userId).all (told id dto.oldPassword) = true) :
    Restored cfg p (lift (AuthService.changePassword cfg userId dto)) t := by
  refine lifted_await During.stable ht fun t ht d hd => ⟨fun row hrow => ?_, ht.inv.neutral rfl hd⟩
  have ht' : During cfg op last registered first
      ((accounts cfg).after d p (.backend (.query (.user .row userId))) t) := ht.neutral rfl hd
  cases row with
  | none => exact restored_throw ht'.inv
  | some user =>
    have hfound : t.store.db.findUser userId = some user := by
      rcases hd with rfl | rfl
      · exact Except.ok.inj hrow
      · cases hrow
    obtain rfl : user.id = userId := Database.findUser_id hfound
    refine lifted_throwIf ht'.inv fun haccepted => ?_
    rw [← ht.last] at htold
    obtain ⟨r, hr, hdecrypt, -⟩ := (ht.inv.kept _ _ hfound).accepted crypto htold
      (Bool.not_eq_false _ |>.mp haccepted)
    rw [ht.registered] at hr
    simp only [Prog.bind_eq, hdecrypt, Prog.ret_bind]
    exact lifted_update ht' hset hr fun _ => lift_harmless (fun _ hq => neutral_of_harmless hq)
      (.await rfl)

/-- A row that is found by its name has been found by its id. -/
theorem During.row {username : String} {user : User} (ht : During cfg op last registered first t)
    (h : t.store.db.findUsername cfg.sameName username = some user) : Kept cfg t.log user :=
  ht.inv.kept user.id user (Database.findUser_of_findUsername ht.inv.users.distinct h)

theorem recoverPassword_restores (crypto : PasswordCrypto cfg) {dto : RecoverPasswordDto}
    {db : Database} (ht : During cfg op last registered first t) (hdb : t.store.db = db)
    (hset : newPassword op = some dto.newPassword)
    (htold : ∀ user, db.findUsername cfg.sameName dto.username = some user →
      (registered user.id).all (fun r => told cfg.sha256 dto.recoveryPhrase r.recoveryPhrase) =
        true) :
    Restored cfg p (lift (AuthService.recoverPassword cfg dto)) t := by
  have hstable : Stable (accounts cfg) (rules cfg) (.alone p) p fun t =>
      During cfg op last registered first t ∧ t.store.db = db :=
    .alone fun _ n _ h => ⟨h.1.moved n, h.2⟩
  refine lifted_await hstable ⟨ht, hdb⟩ fun t ⟨ht, hdb⟩ d hd =>
    ⟨fun row hrow => ?_, ht.inv.neutral rfl hd⟩
  have ht' : During cfg op last registered first
      ((accounts cfg).after d p (.backend (.query (.userByUsername dto.username))) t) :=
    ht.neutral rfl hd
  cases row with
  | none => exact restored_throw ht'.inv
  | some user =>
    have hfound : t.store.db.findUsername cfg.sameName dto.username = some user := by
      rcases hd with rfl | rfl
      · exact Except.ok.inj hrow
      · cases hrow
    refine lifted_throwIf ht'.inv fun haccepted => ?_
    have htold := htold user (hdb ▸ hfound)
    rw [← ht.registered] at htold
    obtain ⟨r, hr, hdecrypt⟩ := (ht.row hfound).recovered crypto htold
      (Bool.not_eq_false _ |>.mp haccepted)
    rw [ht.registered] at hr
    simp only [Prog.bind_eq, hdecrypt, Prog.ret_bind]
    exact lifted_update (f := fun _ => .ret ()) ht' hset hr fun _ => trivial

/-- The row of a registration, with the key that it drew. -/
theorem During.registering (ht : During cfg op last registered (some bytes) t)
    {dto : RegisterUsersDto} (hop : op = .register dto) (inviteId iv salt iv' salt' salt₂ : Id)
    (publicKey : String) {d : Delivery} (hd : d = .delivered ∨ d = .failed) :
    Inv cfg ((accounts cfg).after d p (.registerUser inviteId ⟨dto.username, dto.password,
      cfg.encryptMasterKey dto.password (hexOf bytes) iv salt,
      cfg.bcryptHash (cfg.sha256 dto.recoveryPhrase) salt₂,
      cfg.encryptMasterKey dto.recoveryPhrase (hexOf bytes) iv' salt', publicKey⟩) t) := by
  generalize hnew : (⟨dto.username, dto.password,
    cfg.encryptMasterKey dto.password (hexOf bytes) iv salt,
    cfg.bcryptHash (cfg.sha256 dto.recoveryPhrase) salt₂,
    cfg.encryptMasterKey dto.recoveryPhrase (hexOf bytes) iv' salt',
    publicKey⟩ : NewUser) = new
  have failed : ∀ e, Inv cfg ⟨t.store, ⟨p, .registerUser inviteId new, .error e⟩ :: t.log⟩ :=
    fun e =>
    ⟨ht.inv.users, fun id user hrow => (ht.inv.kept id user hrow).congr (.refl user) rfl rfl⟩
  rcases after_cases hd with ⟨hafter, -⟩ | ⟨e, hafter, -⟩
  · rw [hafter]
    have husers : CachedKeys.UsersDrawn
      (t.store.deliverAccount cfg (.registerUser inviteId new)).1.db
        (t.store.deliverAccount cfg (.registerUser inviteId new)).1.nextId :=
          CachedKeys.usersDrawn_deliverAccount ht.inv.users
    rcases t.store.deliverAccount_cases cfg (q := .registerUser inviteId new) rfl with
      ⟨a, hreply, ⟨-, -, ha⟩, hstore⟩ | ⟨e, hreply, hstore⟩
    · subst ha
      rw [hreply]
      refine ⟨husers, fun id user hrow => ?_⟩
      rw [hstore] at hrow
      have hfind : (Database.newUser cfg new t.store.nextId :: t.store.db.users).find? (fun u =>
        u.id == id) = some user := hrow
      rw [List.find?_cons] at hfind
      split at hfind
      · obtain rfl := Option.some.inj hfind
        subst hop
        have hregistration : registrationOf t.log = some ⟨hexOf bytes, dto.recoveryPhrase⟩ := by
          obtain ⟨rest, hrest⟩ := List.head?_eq_some_iff.mp (ht.first bytes rfl)
          rw [registrationOf, ht.served, hrest]
        have hlast : (MasterKeys.served t.log).bind newPassword = some dto.password := by
          rw [ht.served]
          rfl
        subst hnew
        constructor
        · exact ⟨dto.password, t.store.nextId + 2, (if_pos rfl).trans hlast, rfl, _, iv, salt,
            (if_pos rfl).trans hregistration, rfl⟩
        · exact ⟨_, salt₂, (if_pos rfl).trans hregistration, rfl, iv', salt', rfl⟩
      · have hrow' : t.store.db.findUser id = some user := hfind
        have hid : user.id ≠ t.store.nextId := by
          have hmem : user.id ∈ t.store.db.users.map (·.id) :=
            List.mem_map_of_mem (List.mem_of_find?_eq_some hfind)
          exact (ht.inv.users.drawn _ hmem).ne
        refine (ht.inv.kept id user hrow').congr (.refl user) (if_neg fun h => ?_)
          (if_neg fun h => ?_)
        · exact hid (Option.some.inj h).symm
        · exact hid (Option.some.inj h).symm
    · rw [hreply, hstore]
      exact failed e
  · rw [hafter]
    exact failed e

/-- The transaction of a registration and what follows it. -/
theorem storeRegistration_restores (ht : During cfg op last registered (some bytes) t)
    {dto : RegisterUsersDto} (hop : op = .register dto) {invite : InviteCode}
    {iv salt iv' salt' salt₂ : Id} {publicKey : String} :
    Restored cfg p (AuthService.storeRegistration invite ⟨dto.username, dto.password,
      cfg.encryptMasterKey dto.password (hexOf bytes) iv salt,
      cfg.bcryptHash (cfg.sha256 dto.recoveryPhrase) salt₂,
      cfg.encryptMasterKey dto.recoveryPhrase (hexOf bytes) iv' salt', publicKey⟩ (hexOf bytes))
        t := by
  refine Meets.caught (Meets.await During.stable ht fun t ht _ d ha => ⟨rfl, ?_, ?_⟩)
  · intro user _
    have hinv := ht.registering (p := p) hop invite.id iv salt iv' salt' salt₂ publicKey
      (allowed ha)
    refine (keeps_inv (lift_calls (P := fun q => neutral (.backend q) = true) (fun _ hq => hq)
      (.await rfl)) hinv).next ?_ ?_
    · exact fun e t _ ht => restored_throw ht
    · exact fun _ t _ ht => Meets.ret Inv.stable ht fun _ h _ => h
  · intro e _
    have hinv := ht.registering (p := p) hop invite.id iv salt iv' salt' salt₂ publicKey
      (allowed ha)
    exact Meets.throw Inv.stable hinv fun t ht _ => restored_throw ht

theorem register_restores {dto : RegisterUsersDto} (ht : During cfg op last registered none t)
    (hop : op = .register dto) (hdrawn : drawn t.log = []) :
    Restored cfg p (AuthService.register cfg dto) t := by
  have hstable : Stable (accounts cfg) (rules cfg) (.alone p) p
      fun t => During cfg op last registered none t ∧ drawn t.log = [] :=
        .alone fun _ n _ h => ⟨h.1.moved n, h.2⟩
  refine Meets.await hstable ⟨ht, hdrawn⟩ fun t ⟨ht, hdrawn⟩ _ d ha => ⟨rfl, ?_, ?_⟩
  · intro invite _
    have ht' := ht.neutral (p := p) (q := .inviteCode dto.inviteCode) rfl (allowed ha)
    cases invite with
    | none => exact restored_throw ht'.inv
    | some invite =>
      refine Meets.throwIf (fun _ => restored_throw ht'.inv) fun _ => ?_
      refine Meets.call hstable ⟨ht', hdrawn⟩ fun t ⟨ht, hdrawn⟩ _ d ha => ⟨rfl, ?_⟩
      have ht' := ht.neutral (p := p) (q := .backend .random) rfl (allowed ha)
      cases hreply : (accounts cfg).reply d (.backend .random) t with
      | error e => exact restored_throw ht'.inv
      | ok bytes =>
        have hlog : ((accounts cfg).after d p (.backend .random) t).log = ⟨p, .backend .random,
          .ok bytes⟩ :: t.log :=
          congrArg (fun r : AccountReply (.backend .random) =>
            (⟨p, .backend .random, r⟩ : AccountEvent) :: t.log) hreply
        have hfirst : During cfg op last registered (some bytes)
            ((accounts cfg).after d p (.backend .random) t) := by
          refine ⟨ht'.inv, ht'.served, ht'.last, ht'.registered, fun b hb => ?_⟩
          rw [hlog, drawn, hdrawn]
          exact hb
        refine during_store hfirst fun iv salt t ht => ?_
        refine during_store ht fun iv' salt' t ht => ?_
        refine during_hash ht fun salt₂ t ht => ?_
        refine during_call rfl ht fun keyPair t ht => ?_
        refine (storeRegistration_restores ht hop).next (fun e t _ ht => ht) fun user t _ ht => ?_
        exact keeps_inv (lift_calls (fun _ hq => neutral_of_within [.sign] (by decide) hq)
          (AuthService.getTokens_calls (by decide))) ht
  · exact fun e _ => restored_throw (ht.inv.neutral rfl (allowed ha))

/-- The guard lets the user of the token through. -/
theorem guarded_restores {payload : TokenPayload} (body : Id → Routine Outcome)
    (ht : During cfg op last registered first t) (h : ∀ t, During cfg op last registered first t →
      Restored cfg p (lift (body payload.sub)) t) :
    Restored cfg p (lift (Operation.guarded payload body)) t := by
  unfold Operation.guarded JwtStrategy.validate
  simp only [Prog.bind_eq, Prog.bind_assoc, Prog.pure_eq]
  refine lifted_await During.stable ht fun t ht d hd => ⟨fun row hrow => ?_, ht.inv.neutral rfl hd⟩
  have ht' : During cfg op last registered first
      ((accounts cfg).after d p (.backend (.query (.user .row payload.sub))) t) :=
    ht.neutral rfl hd
  cases row with
  | none => exact restored_throw ht'.inv
  | some user =>
    have hfound : t.store.db.findUser payload.sub = some user := by
      rcases hd with rfl | rfl
      · exact Except.ok.inj hrow
      · cases hrow
    simp only [Prog.bind_assoc]
    refine lifted_throwIf ht'.inv fun _ => lifted_throwIf ht'.inv fun _ => ?_
    rw [Prog.ret_bind, Database.findUser_id hfound]
    exact h _ ht'

/-- What a request makes of its result is no call. -/
theorem mapped_restores {x : Routine α} {f : α → Routine β} (hx : Restored cfg p (lift x) t)
    (hf : ∀ a, (lift (f a)).Calls fun q => neutral q = true) :
    Restored cfg p (lift (x.bind f)) t := by
  rw [lift, Prog.expand_bind]
  exact hx.next (fun _ _ _ h => h) fun a t _ h => keeps_inv (hf a) h

end

theorem program_restores (crypto : PasswordCrypto cfg) {op : AccountOperation} (hs : Inv cfg s)
    (hst : (rules cfg).starts s op = true) :
    Meets (accounts cfg) (rules cfg) (.alone p) p (op.program cfg) (fun _ t => Inv cfg t) s := by
  simp only [rules, passwordRequests, Bool.and_eq_true] at hst
  obtain ⟨⟨-, hconcerns⟩, hrecognised⟩ := hst
  have hstable : Stable (accounts cfg) (rules cfg) (.alone p) p
      fun t => Inv cfg t ∧ t.store.db = s.store.db ∧ t.log = s.log :=
        .alone fun _ n _ h => ⟨h.1.moved n, h.2⟩
  refine Meets.call hstable ⟨hs, rfl, rfl⟩ fun t ⟨ht, hdb, hlog⟩ _ d ha => ⟨rfl, ?_⟩
  have hreceived : (accounts cfg).after d p (.receive op) t = ⟨t.store,
    ⟨p, .receive op, .ok ()⟩ :: t.log⟩ := rfl
  rw [hreceived]
  have hduring : During cfg op (fun u => lastSet u s.log) (fun u => registration u s.log) none
      ⟨t.store, ⟨p, .receive op, .ok ()⟩ :: t.log⟩ := by
    refine ⟨⟨ht.users, fun id user hrow => (ht.kept id user hrow).congr (.refl user) rfl rfl⟩,
      rfl, ?_, ?_, ?_⟩
    · intro u
      rw [lastSet_cons (e := ⟨p, .receive op, .ok ()⟩) (Option.some_ne_none u).symm, hlog]
    · intro u
      rw [registration_cons (e := ⟨p, .receive op, .ok ()⟩) (Option.some_ne_none u).symm, hlog]
    · exact fun bytes hb => by cases hb
  cases op with
  | register dto =>
    exact (register_restores hduring rfl rfl).next (fun _ _ _ h => h) fun payload t _ ht =>
      restored_ret ht
  | internalLogin dto =>
    exact mapped_restores (keeps_inv internalLogin_neutral hduring.inv) fun _ => trivial
  | base op =>
    cases op with
    | login dto =>
      refine mapped_restores (keeps_inv login_neutral hduring.inv) fun result => ?_
      cases result with
      | tokens payload => trivial
      | pendingDeletion deleteAfterAt token => trivial
    | changePassword payload dto =>
      have hbody : ∀ t, During cfg (.base (.changePassword payload dto)) (fun u => lastSet u s.log)
          (fun u => registration u s.log) none t → Restored cfg p (lift (do
            AuthService.changePassword cfg payload.sub dto
            return Outcome.done)) t :=
        fun t ht => mapped_restores (changePassword_restores crypto ht rfl hrecognised) fun _ =>
          trivial
      exact guarded_restores (fun userId => do
        AuthService.changePassword cfg userId dto
        return Outcome.done) hduring hbody
    | recoverPassword dto =>
      have htold : ∀ user, s.store.db.findUsername cfg.sameName dto.username = some user →
          (registration user.id s.log).all (fun r =>
            told cfg.sha256 dto.recoveryPhrase r.recoveryPhrase) = true := by
        intro user huser
        simp only [recognised, huser, Option.all_some] at hrecognised
        exact hrecognised
      exact mapped_restores (recoverPassword_restores crypto hduring hdb rfl htold) fun _ => trivial
    | _ => cases hconcerns
  | _ => cases hconcerns

theorem inv_lasts : Lasts (accounts cfg) (rules cfg) (Inv cfg) := fun _ n _ h => h.moved n

theorem inv_initial {w : World} (h : w.db.users = []) : Inv cfg (.initial w) := by
  refine ⟨⟨?_, ?_⟩, fun id user hrow => ?_⟩
  · change (w.db.users.map _).Nodup
    rw [h]
    exact List.nodup_nil
  · change ∀ id ∈ w.db.users.map _, _
    rw [h]
    exact fun _ hid => (by cases hid)
  · have hfind : w.db.users.find? (fun u => u.id == id) = some user := hrow
    rw [h] at hfind
    cases hfind

theorem Inv.protects (crypto : PasswordCrypto cfg) (hs : Inv cfg s) {id : Id} {user : User}
    (h : s.store.db.findUser id = some user) :
    Protected cfg s.log user := by
  obtain ⟨set, salt, hset, hhash, r, iv, salt', hr, hstore⟩ := (hs.kept id user h).password
  refine ⟨r, set, hr, hset, ?_⟩
  rw [hstore]
  exact (decryptMasterKey_ret (crypto.decrypt _ _ _ _)).1

theorem Inv.unlocks (crypto : PasswordCrypto cfg) (hs : Inv cfg s) {op : AccountOperation}
    (h : recognised cfg s op = true) :
    Unlocks cfg s op := by
  have named : ∀ {username password user},
    s.store.db.findUsername cfg.sameName username = some user →
      (s.store.db.findUsername cfg.sameName username).all (fun user =>
        (lastSet user.id s.log).all (told id password)) = true →
      cfg.bcryptCompare password user.password = true → ∃ r, registration user.id s.log = some r ∧
        AuthService.decryptMasterKey cfg password user.masterKeyStore = .ret r.masterKey ∧
        InternalAuthService.decryptMasterKey cfg password user.masterKeyStore =
          .ret r.masterKey := by
    intro username password user hfound htold haccepted
    rw [hfound, Option.all_some] at htold
    exact (hs.kept user.id user (Database.findUser_of_findUsername hs.users.distinct
      hfound)).accepted crypto htold haccepted
  cases op with
  | internalLogin dto =>
    intro user hfound haccepted
    obtain ⟨r, hr, -, hdecrypt⟩ := named hfound h haccepted
    exact ⟨r, hr, hdecrypt⟩
  | base op =>
    cases op with
    | login dto =>
      intro user hfound haccepted
      obtain ⟨r, hr, hdecrypt, -⟩ := named hfound h haccepted
      exact ⟨r, hr, hdecrypt⟩
    | changePassword payload dto =>
      intro user hfound haccepted
      have hid := Database.findUser_id hfound
      have htold : (lastSet user.id s.log).all (told id dto.oldPassword) = true := by
        rw [hid]
        exact h
      obtain ⟨r, hr, hdecrypt, -⟩ := (hs.kept _ user hfound).accepted crypto htold haccepted
      exact ⟨r, hr, hdecrypt⟩
    | _ => trivial
  | _ => trivial

end MasterKeys

/-- The master key of each user stays protected by his password, as long as no request presents a
password or a recovery phrase that differs from the one set only where bcrypt does not compare. -/
theorem master_key_kept (cfg : Config) (crypto : MasterKeys.PasswordCrypto cfg) (w : World)
    (hw : w.db.users = []) :
    MasterKeys.MasterKeyKept cfg (MasterKeys.rules cfg) w := by
  intro as s hs hidle
  have hsteady := Lasts.run MasterKeys.inv_lasts
    (fun t op ht hst p => MasterKeys.program_restores crypto ht hst) (MasterKeys.inv_initial hw) hs
  have hinv := hsteady.idle hidle
  refine ⟨fun id user hrow => hinv.protects crypto hrow, fun op hst => ?_⟩
  rw [MasterKeys.rules, Bool.and_eq_true] at hst
  exact hinv.unlocks crypto hst.2

namespace MasterKeys

/-- Decryption fails under another secret. -/
def strictConfig : Config := { demoConfig with
  bcryptCompare := fun secret hash => decide (comparedBytes secret = comparedBytes hash)
  encryptMasterKey := fun secret masterKey _ _ => ⟨masterKey, "", secret⟩
  decryptMasterKey := fun secret store => if store.salt = secret then some store.encrypted
    else none }

theorem strictConfig_crypto : PasswordCrypto strictConfig :=
  ⟨fun _ _ _ => rfl, fun _ _ _ _ => if_pos rfl⟩

def emptyWorld : World := { demoWorld with
  db := { demoWorld.db with users := [], inviteCodes :=
    [⟨3, "RB-0123456789ABCDEF", 1, true, none, none, true⟩] } }

/-- 73 bytes. -/
def longPassword : String := "Secret123 Secret123 Secret123 Secret123 Secret123 Secret123 Secret123 Abc"

/-- The same up to the last byte. -/
def likePassword : String := "Secret123 Secret123 Secret123 Secret123 Secret123 Secret123 Secret123 Abd"

def registerAlice : List AccountAction :=
  .start (.register ⟨"alice", longPassword, "RB-0123456789ABCDEF", "phrase"⟩) :: accountCalls 0 12

/-- The user changes the password with the token of the registration. -/
def aliceChanges : List AccountAction :=
  registerAlice ++ .start (.base (.changePassword ⟨107, "alice", 108⟩ ⟨longPassword,
    "Secret456"⟩)) :: accountCalls 1 8

end MasterKeys

/-- bcrypt accepts another password than the one of the registration, under which the key cannot be
decrypted. -/
theorem long_password_loses_key : MasterKeys.PasswordCrypto MasterKeys.strictConfig ∧
    ¬ MasterKeys.MasterKeyKept MasterKeys.strictConfig MasterKeys.passwordRequests
      MasterKeys.emptyWorld := by
  refine ⟨MasterKeys.strictConfig_crypto, fun h => ?_⟩
  have key : (((accounts MasterKeys.strictConfig).runAlone MasterKeys.passwordRequests
    (.initial MasterKeys.emptyWorld)
      MasterKeys.registerAlice).any fun s => s.idle &&
        (s.shared.store.db.findUsername MasterKeys.strictConfig.sameName "alice").any fun user =>
        MasterKeys.strictConfig.bcryptCompare MasterKeys.likePassword user.password &&
          user.masterKeyStore.any fun store =>
            (MasterKeys.strictConfig.decryptMasterKey MasterKeys.likePassword store).isNone) =
            true := by
    decide +kernel
  obtain ⟨s, hs, hx⟩ := (Option.any_eq_true _ _).mp key
  rw [Bool.and_eq_true] at hx
  obtain ⟨user, huser, haccepted⟩ := (Option.any_eq_true _ _).mp hx.2
  rw [Bool.and_eq_true] at haccepted
  obtain ⟨store, hstore, hnone⟩ := (Option.any_eq_true _ _).mp haccepted.2
  obtain ⟨r, -, hdecrypt⟩ := (h MasterKeys.registerAlice s hs hx.1).2
    (.base (.login ⟨"alice", MasterKeys.likePassword⟩)) rfl
    user huser haccepted.1
  rw [hstore] at hdecrypt
  exact MasterKeys.decryptMasterKey_none (Option.isNone_iff_eq_none.mp hnone) _ hdecrypt

theorem master_key_kept_alice : ∃ s,
      (accounts MasterKeys.strictConfig).runAlone (MasterKeys.rules MasterKeys.strictConfig)
    (.initial MasterKeys.emptyWorld) MasterKeys.aliceChanges = some s ∧
    ∃ user, s.shared.store.db.findUser 107 = some user ∧
    MasterKeys.Protected MasterKeys.strictConfig s.shared.log user := by
  have key : (((accounts MasterKeys.strictConfig).runAlone
    (MasterKeys.rules MasterKeys.strictConfig) (.initial MasterKeys.emptyWorld)
      MasterKeys.aliceChanges).any fun s => s.idle &&
        (s.shared.store.db.findUser 107).any fun user => user.password == "Secret456") = true := by
    decide +kernel
  obtain ⟨s, hs, hx⟩ := (Option.any_eq_true _ _).mp key
  rw [Bool.and_eq_true] at hx
  obtain ⟨user, huser, -⟩ := (Option.any_eq_true _ _).mp hx.2
  exact ⟨s, hs, user, huser, (master_key_kept MasterKeys.strictConfig MasterKeys.strictConfig_crypto
    MasterKeys.emptyWorld rfl
    MasterKeys.aliceChanges s hs hx.1).1 107 user huser⟩

end Redbox
