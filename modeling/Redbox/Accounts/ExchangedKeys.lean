import Redbox.Accounts.SessionKeys
import Redbox.Accounts.SessionRevocation

/-! A session key that has left its row never comes back, so a refresh token is exchanged once and a
token that has been revoked is refused for ever, however the requests interleave and fail. -/
namespace Redbox
open Interleaving

/-- A swap that replaced this key of the account. -/
def exchangesKey (table : SessionTable) (id key : Id) : BackendEvent → Bool
  | ⟨_, .statement (.swapSessionKey t v k), .ok n⟩ =>
    decide (t = table ∧ v = id ∧ k = key ∧ (n : Nat) ≠ 0)
  | _ => false

namespace ExchangedKeys
open SessionRevocation

/-- A key is exchanged at most once, and its tokens are then refused for ever. -/
def KeysExchangedOnce (cfg : Config) (w : World) : Prop :=
  ∀ R as s table id key, (backend cfg).run R (.initial w) as = some s →
    s.shared.log.countP (exchangesKey table id key) = 0 ∨
    s.shared.log.countP (exchangesKey table id key) = 1 ∧
      ∀ bs t payload, (backend cfg).run R s bs = some t → payload.sub = id →
        payload.sessionKey = key → accepted t.shared.store.db table payload = false

/-- Tokens of a session that has ended are refused for ever, whatever logins come after. -/
def EndedStaysEnded (cfg : Config) (w : World) : Prop :=
  ∀ R as s bs t cs u table payload, (backend cfg).run R (.initial w) as = some s →
    accepted s.shared.store.db table payload = true → (backend cfg).run R s bs = some t →
    t.shared.store.db.sessionKeyOf table payload.sub ≠ some payload.sessionKey →
    (backend cfg).run R t cs = some u → accepted u.shared.store.db table payload = false

/-- The key has been drawn, and the row of the account does not have it. -/
def Gone (table : SessionTable) (id key : Id) (w : World) : Prop :=
  key < w.nextId ∧ w.db.sessionKeyOf table id ≠ some key

variable {cfg : Config} {w : World} {d : Delivery} {q : Request} {table : SessionTable}
  {id key : Id}
  {R : BackendRules}

theorem nextId_exec (d : Delivery) (q : Request) : w.nextId ≤ (w.exec cfg d q).1.nextId := by
  rcases w.exec_cases cfg d q with heq | ⟨-, hid⟩
  · rw [heq]
    exact w.nextId_deliver cfg q
  · rw [hid]

theorem Gone.exec (h : Gone table id key w) (d : Delivery) (q : Request) :
    Gone table id key (w.exec cfg d q).1 := by
  rcases w.exec_cases cfg d q with heq | ⟨hdb, hid⟩
  · rw [heq]
    refine ⟨h.1.trans_le (w.nextId_deliver cfg q), ?_⟩
    rcases sessionKeyOf_deliver cfg w q table id with hrow | hrow
    · rw [hrow]
      exact h.2
    · rw [hrow]
      exact fun hkey => Nat.ne_of_gt h.1 (Option.some.inj hkey)
  · rw [Gone, hdb, hid]
    exact h

theorem drawn_exec (h : KeysDrawn w) : KeysDrawn (w.exec cfg d q).1 := by
  intro table key hkey
  rcases w.exec_cases cfg d q with heq | ⟨hdb, hid⟩
  · rw [heq] at hkey ⊢
    rcases mem_keys_deliver hkey with hold | ⟨rfl, hlt⟩
    · exact (h table key hold).trans_le (w.nextId_deliver cfg q)
    · exact hlt
  · rw [hdb] at hkey
    rw [hid]
    exact h table key hkey

theorem mem_sessionKeys {db : Database} (h : db.sessionKeyOf table id = some key) :
    key ∈ db.sessionKeys table := by
  cases table with
  | user =>
    obtain ⟨u, hu, rfl⟩ := Option.map_eq_some_iff.mp h
    exact List.mem_map_of_mem (List.mem_of_find?_eq_some hu)
  | adminUser =>
    obtain ⟨u, hu, rfl⟩ := Option.map_eq_some_iff.mp h
    exact List.mem_map_of_mem (List.mem_of_find?_eq_some hu)

theorem sessionKeyOf_setSessionKey_self {db : Database} {fresh : Id}
    (h : db.sessionKeyOf table id = some key) :
    (db.setSessionKey fresh table id).sessionKeyOf table id = some fresh := by
  cases table with
  | user =>
    obtain ⟨u, hu, rfl⟩ := Option.map_eq_some_iff.mp h
    simp [Database.sessionKeyOf, Database.findUser_setSessionKey, hu, Database.findUser_id hu]
  | adminUser =>
    obtain ⟨u, hu, rfl⟩ := Option.map_eq_some_iff.mp h
    simp [Database.sessionKeyOf, Database.setSessionKey, Database.findAdminUser_setAdminUser, hu,
      Database.findAdminUser_id hu]

/-- An exchange finds the key in the row and draws another for it. -/
theorem gone_of_exchange {p : Nat} (h : KeysDrawn w)
    (he : exchangesKey table id key ⟨p, q, (w.exec cfg d q).2⟩ = true) :
    w.db.sessionKeyOf table id = some key ∧ Gone table id key (w.exec cfg d q).1 := by
  obtain ⟨n, hq, hreply, hn⟩ : ∃ n : Nat, q = .statement (.swapSessionKey table id key) ∧
      HEq (w.exec cfg d q).2 (.ok n : Except Thrown Nat) ∧ n ≠ 0 := by
    unfold exchangesKey at he
    split at he
    · rename_i heq
      injection heq with _ hq hresp
      obtain ⟨rfl, rfl, rfl, hn⟩ := of_decide_eq_true he
      exact ⟨_, hq, hresp, hn⟩
    · cases he
  subst hq
  -- The call was answered, so it took effect.
  obtain ⟨hanswer, hstate⟩ : (w.deliver cfg (.statement (.swapSessionKey table id key))).2 = .ok n ∧
      (w.exec cfg d (.statement (.swapSessionKey table id key))).1 =
        (w.deliver cfg (.statement (.swapSessionKey table id key))).1 := by
    cases d with
    | failed => cases eq_of_heq hreply
    | lost => cases eq_of_heq hreply
    | delivered => exact ⟨eq_of_heq hreply, rfl⟩
    | late => exact ⟨eq_of_heq hreply, rfl⟩
  obtain ⟨db', hperform⟩ := World.reply_statement hanswer
  have hrow := Database.sessionKeyOf_swapSessionKey hperform hn
  have hdrawn : key < w.nextId := h table key (mem_sessionKeys hrow)
  refine ⟨hrow, ?_⟩
  rw [Gone, hstate]
  refine ⟨hdrawn.trans_le (w.nextId_deliver cfg _), ?_⟩
  have hdb : (w.deliver cfg (.statement (.swapSessionKey table id key))).1.db =
      w.db.setSessionKey w.nextId table id := by
    simp only [World.deliver, Database.perform, Database.swapSessionKey, if_pos hrow]
  rw [hdb, sessionKeyOf_setSessionKey_self hrow]
  exact fun hkey => Nat.ne_of_gt hdrawn (Option.some.inj hkey)

/-- What holds of each key in every state. -/
structure Inv (s : SharedWorld) : Prop where
  drawn : KeysDrawn s.store
  exchanged : ∀ table id key, s.log.countP (exchangesKey table id key) = 0 ∨
    s.log.countP (exchangesKey table id key) = 1 ∧ Gone table id key s.store

theorem Inv.after {s : SharedWorld} (hs : Inv s) (p : Nat) (d : Delivery) (q : Request) :
    Inv ((backend cfg).after d p q s) := by
  refine ⟨drawn_exec hs.drawn, fun table id key => ?_⟩
  have hcons : ((backend cfg).after d p q s).log = ⟨p, q, (s.store.exec cfg d q).2⟩ :: s.log := rfl
  rw [hcons]
  cases he : exchangesKey table id key ⟨p, q, (s.store.exec cfg d q).2⟩ with
  | true =>
    obtain ⟨hrow, hgone⟩ := gone_of_exchange hs.drawn he
    rcases hs.exchanged table id key with hnone | ⟨-, -, hold⟩
    · exact .inr ⟨by rw [List.countP_cons_of_pos he, hnone], hgone⟩
    · exact absurd hrow hold
  | false =>
    rw [List.countP_cons_of_neg (by rw [he]; exact Bool.false_ne_true)]
    exact (hs.exchanged table id key).imp_right fun h => ⟨h.1, h.2.exec d q⟩

/-- What every call keeps holds after every run. -/
theorem run_keeps {A : SharedWorld → Prop}
    (after : ∀ s p d q, A s → A ((backend cfg).after d p q s))
    (moved : ∀ s n, A s → A ((backend cfg).moved n s))
    {s t : BackendPool} {as : List BackendAction} (hs : A s.shared)
    (h : (backend cfg).run R s as = some t) : A t.shared := by
  refine System.run_invariant (I := fun s => A s.shared) (fun hs hstep => ?_) hs h
  obtain ⟨op, _, _, rfl⟩ | ⟨p, d, op, q, k, _, _, _, rfl⟩ | ⟨n, _, _, rfl⟩ :=
    System.step_cases hstep
  · exact hs
  · exact after _ p d q hs
  · exact moved _ n hs

theorem inv_run (hw : KeysDrawn w) {s : BackendPool} {as : List BackendAction}
    (h : (backend cfg).run R (.initial w) as = some s) : Inv s.shared :=
  run_keeps (fun _ p d q hs => hs.after p d q) (fun _ _ hs => ⟨hs.drawn, hs.exchanged⟩)
    ⟨hw, fun _ _ _ => .inl rfl⟩ h

theorem Gone.refused {s t : BackendPool} {as : List BackendAction} {payload : TokenPayload}
    (hgone : Gone table payload.sub payload.sessionKey s.shared.store)
    (h : (backend cfg).run R s as = some t) : accepted t.shared.store.db table payload = false := by
  have hlater : Gone table payload.sub payload.sessionKey t.shared.store :=
    run_keeps (A := fun s => Gone table payload.sub payload.sessionKey s.store)
      (fun _ _ d q hs => hs.exec d q) (fun _ _ hs => hs) hgone h
  by_contra hacc
  exact hlater.2 (sessionKeyOf_accepted (Bool.not_eq_false _ ▸ hacc))

theorem ended_stays_ended (cfg : Config) (w : World) (hw : KeysDrawn w) :
    EndedStaysEnded cfg w := by
  intro R as s bs t cs u table payload hs hacc ht hended hu
  have hdrawn : payload.sessionKey < s.shared.store.nextId :=
    (inv_run hw hs).drawn table _ (mem_sessionKeys (sessionKeyOf_accepted hacc))
  have hlater : payload.sessionKey < t.shared.store.nextId :=
    run_keeps (A := fun s => payload.sessionKey < s.store.nextId)
      (fun _ _ d q hlt => hlt.trans_le (nextId_exec d q)) (fun _ _ hlt => hlt) hdrawn ht
  exact Gone.refused ⟨hlater, hended⟩ hu

theorem ended_stays_ended_demo : EndedStaysEnded demoConfig demoWorld :=
  ended_stays_ended demoConfig demoWorld demo_keysDrawn

end ExchangedKeys
end Redbox
