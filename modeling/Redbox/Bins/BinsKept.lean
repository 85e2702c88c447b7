import Redbox.Bins.SharedBins
import Redbox.Interleaving.Callers

/-! What every call about bins keeps. -/
namespace Redbox.BinSharing
open Bytes Interleaving

/-- The key of the bin, encrypted under the master key of its user. -/
structure Keyed (cfg : Config) (data : BinData) (binKey : JsString) : Prop where
  key : isBinKey binKey = true
  iv : data.binKeyIv.length = 16
  encrypted : data.encryptedBinKey =
    cfg.aes256Cbc (cfg.masterKey data.userId) data.binKeyIv (ofText (textOf binKey))

/-- What holds of the rows at all times. -/
structure Kept (cfg : Config) (s : Tables) : Prop where
  inserted : ∀ bin ∈ s.bins, bin ∈ s.inserted
  drawn : ∀ bin ∈ s.inserted, ReportsService.isUuid bin.id = true ∧
    ReportsService.isUuid bin.shareToken = true
  ids : (s.inserted.map (·.id)).Nodup
  keyed : ∀ bin ∈ s.inserted, ∃ binKey, Keyed cfg bin.data binKey

def Expired (bin : BinRow) (s : Tables) : Prop := ∃ t, bin.data.expiresAt = some t ∧ t < s.clock

/-- The process serves the user. -/
def Serves (p : Nat) (userId : Id) (log : List BinEvent) : Prop :=
  ∃ r, ⟨p, .validate userId, r⟩ ∈ log

def Removes (p : Nat) (id : List Char) (log : List BinEvent) : Prop :=
  ∃ r, ⟨p, .deleteBin id, r⟩ ∈ log

/-- A bin that is gone has expired, or a request of its user removed it. -/
def Gone (bin : BinRow) (s : SharedTables) : Prop :=
  Expired bin s.store ∨ ∃ p, Serves p bin.data.userId s.log ∧ Removes p bin.id s.log

structure Inv (cfg : Config) (s : SharedTables) : Prop where
  kept : Kept cfg s.store
  gone : ∀ bin ∈ s.store.inserted, bin ∈ s.store.bins ∨ Gone bin s

def Pre (cfg : Config) (s : SharedTables) (p : Nat) : BinCall → Prop
  | .createBin data => ∃ binKey, Keyed cfg data binKey
  | .deleteBin id => ∃ bin ∈ s.store.inserted, bin.id = id ∧
    (Expired bin s.store ∨ Serves p bin.data.userId s.log)
  | .deleteExpired t => t ≤ s.store.clock
  | _ => True

def outline (cfg : Config) : Outline BinCall BinReply Tables := ⟨Inv cfg, Pre cfg⟩

section
variable {cfg : Config} {s t : Tables} {q : BinCall} {d : BinDelivery}

theorem exec_fst (cfg : Config) (d : BinDelivery) (q : BinCall) (s : Tables) :
    (s.exec cfg d q).1 = s ∨ (s.exec cfg d q).1 = (s.perform cfg q).1 := by
  cases d with
  | delivered => exact .inr rfl
  | failed => exact .inl rfl
  | lost => exact .inr rfl
  | limited =>
    dsimp only [Tables.exec]
    split
    · exact .inl rfl
    · exact .inr rfl

/-- What was answered was done. -/
theorem exec_ok {a : q.Answer} (h : (s.exec cfg d q).2 = .ok a) :
    (s.exec cfg d q).1 = (s.perform cfg q).1 ∧ (s.perform cfg q).2 = .ok a := by
  cases d with
  | delivered => exact ⟨rfl, h⟩
  | failed => cases h
  | lost => cases h
  | limited =>
    dsimp only [Tables.exec] at h ⊢
    split at h
    · cases h
    · rename_i hlimits
      rw [if_neg hlimits]
      exact ⟨rfl, h⟩

/-- Only the insertion adds rows, and nothing takes a row out of those that were inserted. -/
structure Grown (s t : Tables) : Prop where
  inserted : ∀ bin ∈ s.inserted, bin ∈ t.inserted
  clock : s.clock ≤ t.clock

theorem Grown.refl (s : Tables) : Grown s s := ⟨fun _ h => h, Nat.le_refl _⟩

theorem grown_perform (cfg : Config) (q : BinCall) (s : Tables) : Grown s (s.perform cfg q).1 := by
  cases q with
  | randomBytes size => exact ⟨fun _ h => h, Nat.le_refl _⟩
  | hash password => exact ⟨fun _ h => h, Nat.le_refl _⟩
  | createBin data => exact ⟨fun _ h => List.mem_cons_of_mem _ h, Nat.le_refl _⟩
  | deleteBin id =>
    dsimp only [Tables.perform]
    split
    · exact ⟨fun _ h => h, Nat.le_refl _⟩
    · exact .refl s
  | deleteExpired t => exact ⟨fun _ h => h, Nat.le_refl _⟩
  | _ => exact .refl s

theorem grown_exec (cfg : Config) (d : BinDelivery) (q : BinCall) (s : Tables) :
    Grown s (s.exec cfg d q).1 := by
  rcases exec_fst cfg d q s with h | h
  · rw [h]
    exact .refl s
  · rw [h]
    exact grown_perform cfg q s

theorem grown_drift (s : Tables) (e : Elsewhere) : Grown s (s.drift e) := by
  cases e with
  | tick n => exact ⟨fun _ h => h, Nat.le_add_right _ n⟩
  | _ => exact ⟨fun _ h => h, Nat.le_refl _⟩

theorem Expired.mono {bin : BinRow} (h : Expired bin s) (hg : Grown s t) : Expired bin t :=
  h.imp fun _ ht => ⟨ht.1, ht.2.trans_le hg.clock⟩

/-- Rows go, and nothing else happens to them. -/
theorem Kept.sub (h : Kept cfg s) (hbins : ∀ bin ∈ t.bins, bin ∈ s.bins)
    (hinserted : t.inserted = s.inserted) : Kept cfg t :=
  ⟨fun bin hbin => hinserted ▸ h.inserted bin (hbins bin hbin), hinserted ▸ h.drawn,
    hinserted ▸ h.ids, hinserted ▸ h.keyed⟩

theorem Kept.insert (hcfg : cfg.Sound) (h : Kept cfg s) {data : BinData}
    (hdata : ∃ binKey, Keyed cfg data binKey) (hfresh : freshId cfg s (.createBin data) = true) :
    Kept cfg (s.insert cfg data).1 := by
  refine ⟨fun bin hbin => ?_, List.forall_mem_cons.mpr ⟨⟨hcfg.uuid _, hcfg.uuid _⟩, h.drawn⟩,
    List.nodup_cons.mpr ⟨fun hmem => ?_, h.ids⟩, List.forall_mem_cons.mpr ⟨hdata, h.keyed⟩⟩
  · rcases List.mem_cons.mp hbin with rfl | hbin
    · exact List.mem_cons_self
    · exact List.mem_cons_of_mem _ (h.inserted bin hbin)
  · obtain ⟨bin, hbin, hid⟩ := List.mem_map.mp hmem
    have hused : (s.inserted.any (·.id == cfg.uuid s.nextId)) = true :=
      List.any_eq_true.mpr ⟨bin, hbin, beq_iff_eq.mpr hid⟩
    rw [freshId, hused] at hfresh
    cases hfresh

theorem Kept.perform (hcfg : cfg.Sound) {u : SharedTables} {p : Nat} (h : Kept cfg u.store)
    (hp : Pre cfg u p q) (hfresh : freshId cfg u.store q = true) :
    Kept cfg (u.store.perform cfg q).1 := by
  cases q with
  | randomBytes size => exact h.sub (fun _ hb => hb) rfl
  | hash password => exact h.sub (fun _ hb => hb) rfl
  | createBin data => exact h.insert hcfg hp hfresh
  | deleteBin id =>
    dsimp only [Tables.perform]
    split
    · exact h.sub (fun _ hb => List.mem_of_mem_filter hb) rfl
    · exact h
  | deleteExpired t => exact h.sub (fun _ hb => List.mem_of_mem_filter hb) rfl
  | _ => exact h

/-- Rows are told apart by their ids. -/
theorem Kept.same (h : Kept cfg s) {bin other : BinRow} (hbin : bin ∈ s.inserted)
    (hother : other ∈ s.inserted) (hid : bin.id = other.id) : bin = other :=
  List.inj_on_of_nodup_map h.ids hbin hother hid

theorem expiredAt_iff {bin : BinRow} {n : Time} :
    Tables.expiredAt n bin = true ↔ ∃ t, bin.data.expiresAt = some t ∧ t < n := by
  rw [Tables.expiredAt, Option.any_eq_true]
  exact exists_congr fun t => and_congr_right fun _ => decide_eq_true_iff

end

section
variable {cfg : Config} {s : SharedTables} {p : Nat} {q : BinCall} {d : BinDelivery}

/-- A row that a call removes has expired, or the call is a deletion for its user. -/
theorem Inv.removed (hi : Inv cfg s) (hp : Pre cfg s p q) {bin : BinRow}
    (hbin : bin ∈ s.store.bins) :
    bin ∈ (s.store.perform cfg q).1.bins ∨ Expired bin s.store ∨
      Serves p bin.data.userId s.log ∧ q = .deleteBin bin.id := by
  cases q with
  | createBin data => exact .inl (List.mem_cons_of_mem _ hbin)
  | deleteBin id =>
    by_cases hid : bin.id = id
    · obtain ⟨other, hother, hoid, hright⟩ := hp
      obtain rfl := hi.kept.same (hi.kept.inserted bin hbin) hother (hid.trans hoid.symm)
      subst hid
      exact .inr (hright.imp id fun hserves => ⟨hserves, rfl⟩)
    · refine .inl ?_
      dsimp only [Tables.perform]
      split
      · exact List.mem_filter.mpr ⟨hbin, by simpa using hid⟩
      · exact hbin
  | deleteExpired t =>
    cases hexpired : Tables.expiredAt t bin with
    | false => exact .inl (List.mem_filter.mpr ⟨hbin, by rw [hexpired]; rfl⟩)
    | true =>
      obtain ⟨at', hat, hlt⟩ := expiredAt_iff.mp hexpired
      exact .inr (.inl ⟨at', hat, hlt.trans_le hp⟩)
  | _ => exact .inl hbin

theorem Gone.mono {s' : SharedTables} {bin : BinRow} (h : Gone bin s)
    (hg : Grown s.store s'.store) (hlog : ∀ e ∈ s.log, e ∈ s'.log) : Gone bin s' :=
  h.imp (·.mono hg) fun ⟨p, hserves, hremoves⟩ =>
    ⟨p, hserves.imp fun _ he => hlog _ he, hremoves.imp fun _ he => hlog _ he⟩

theorem inserted_perform (cfg : Config) (q : BinCall) (s : Tables) {bin : BinRow}
    (h : bin ∈ (s.perform cfg q).1.inserted) :
    bin ∈ s.inserted ∨ bin ∈ (s.perform cfg q).1.bins := by
  cases q with
  | createBin data =>
    rcases List.mem_cons.mp h with rfl | h
    · exact .inr List.mem_cons_self
    · exact .inl h
  | deleteBin id =>
    refine .inl ?_
    dsimp only [Tables.perform] at h
    split at h
    · exact h
    · exact h
  | _ => exact .inl h

theorem Inv.after (hcfg : cfg.Sound) (hi : Inv cfg s) (hp : Pre cfg s p q)
    (hfresh : freshId cfg s.store q = true) :
    Inv cfg ((bins cfg).after d p q s) := by
  have hlog : ∀ e ∈ s.log, e ∈ ((bins cfg).after d p q s).log :=
    fun _ he => List.mem_cons_of_mem _ he
  have hgrown : Grown s.store ((bins cfg).after d p q s).store := grown_exec cfg d q s.store
  rcases exec_fst cfg d q s.store with hstore | hstore
  · have hsame : ((bins cfg).after d p q s).store = s.store := hstore
    refine ⟨hsame ▸ hi.kept, ?_⟩
    rw [hsame]
    exact fun bin hbin => (hi.gone bin hbin).imp id (·.mono hgrown hlog)
  · have hdone : ((bins cfg).after d p q s).store = (s.store.perform cfg q).1 := hstore
    refine ⟨hdone ▸ hi.kept.perform hcfg hp hfresh, ?_⟩
    rw [hdone]
    intro bin hbin
    rcases inserted_perform cfg q s.store hbin with hold | hnew
    · rcases hi.gone bin hold with hthere | hgone
      · refine (hi.removed hp hthere).imp id fun hremoved => ?_
        refine hremoved.imp (·.mono hgrown) fun ⟨hserves, hq⟩ => ?_
        subst hq
        exact ⟨p, hserves.imp fun _ he => hlog _ he, _, List.mem_cons_self⟩
      · exact .inr (hgone.mono hgrown hlog)
    · exact .inl hnew

theorem Inv.moved (hi : Inv cfg s) (e : Elsewhere) : Inv cfg ((bins cfg).moved e s) := by
  have hgrown : Grown s.store ((bins cfg).moved e s).store := grown_drift s.store e
  have hbins : ((bins cfg).moved e s).store.bins = s.store.bins := by cases e <;> rfl
  have hinserted : ((bins cfg).moved e s).store.inserted = s.store.inserted := by cases e <;> rfl
  refine ⟨hi.kept.sub (fun _ hb => hbins ▸ hb) hinserted, ?_⟩
  rw [hinserted, hbins]
  exact fun bin hbin => (hi.gone bin hbin).imp id (·.mono hgrown fun _ he => he)

theorem outline_kept (hcfg : cfg.Sound) : (outline cfg).Kept (bins cfg) (anyRequests cfg) where
  after hi ha hp := Inv.after hcfg hi hp ha
  moved {_ e} hi _ := Inv.moved hi e

theorem reply_ok {a : q.Answer} (h : (bins cfg).reply d q s = .ok a) :
    ((bins cfg).after d p q s).store = (s.store.perform cfg q).1 ∧
      (s.store.perform cfg q).2 = .ok a :=
  exec_ok h

/-! ### What is known of a row stays true -/

theorem inserted_held (bin : BinRow) :
    Held (bins cfg) (anyRequests cfg) (outline cfg) p (fun _ => True) fun s =>
      bin ∈ s.store.inserted :=
  .always (fun t _ q d _ _ _ h => (grown_exec cfg d q t.store).inserted bin h)
    fun t e _ _ h => (grown_drift t.store e).inserted bin h

theorem clock_held (n : Time) :
    Held (bins cfg) (anyRequests cfg) (outline cfg) p (fun _ => True) fun s => n ≤ s.store.clock :=
  .always (fun t _ q d _ _ _ h => h.trans (grown_exec cfg d q t.store).clock)
    fun t e _ _ h => h.trans (grown_drift t.store e).clock

theorem serves_held (userId : Id) :
    Held (bins cfg) (anyRequests cfg) (outline cfg) p (fun _ => True) fun s =>
      Serves p userId s.log :=
  .always (fun _ _ _ _ _ _ _ h => h.imp fun _ he => List.mem_cons_of_mem _ he)
    fun _ _ _ _ h => h

end

end Redbox.BinSharing
