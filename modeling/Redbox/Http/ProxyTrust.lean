import Redbox.Http.ClientIp
import Mathlib.Data.List.Forall2
import Mathlib.Tactic.Ring

/-! Which peers the configured proxies are, and which peers the code takes for one. -/
namespace Redbox
open Text IpAddress ClientIp

/-- The peer is in a network that one of the entries denotes. -/
def PeerTrusted (env : ProxyEnv) (peer : Option String) : Prop :=
  ∃ text address entry network, peer = some text ∧ address? text.toList = some address ∧
    entry ∈ proxyEntries env ∧
    network? entry = some network ∧ network.has address.2 = true

def HttpRequest.withoutHeaders (peer : Option String) : HttpRequest := ⟨peer, none, none, none⟩

/-- An address is taken from a header, and depends on one, only where the peer is trusted. -/
structure HeadersFromProxies (env : ProxyEnv) (peer : Option String) : Prop where
  taken : ∀ (request : HttpRequest) (context : ClientIpAuditContext), request.remoteAddress = peer →
    getClientIpAuditContext env request = .ok context →
    (context.ipSource = some .cfConnectingIp ∨ context.ipSource = some .trueClientIp ∨
      context.ipSource = some .xForwardedFor) → PeerTrusted env peer
  independent : ¬ PeerTrusted env peer → ∀ request : HttpRequest, request.remoteAddress = peer →
    getClientIp env request = getClientIp env (.withoutHeaders peer) ∧
      getClientIpAuditContext env request = getClientIpAuditContext env (.withoutHeaders peer)

namespace ClientIp

/-- Digits and dots. -/
def plainIpv4 (cs : List Char) : Bool :=
  (ipv4? cs).isSome && cs.contains '.' && cs.all fun c => c.isDigit || c == '.'

def hasMappedPrefix (cs : List Char) : Bool :=
  decide ((cs.take 7).map Char.toLower = "::ffff:".toList)

/-- Groups of hexadecimal digits. -/
def plainIpv6 (cs : List Char) : Bool :=
  (hexIpv6? cs).isSome && (ipv4? cs).isNone && !hasMappedPrefix cs && cs.all fun c =>
    (hexValue c).isSome || c == ':'

def plainMapped (cs : List Char) : Bool :=
  plainIpv4 (cs.drop 7) && (ipv4? cs).isNone && hasMappedPrefix cs && cs.all fun c =>
    (hexValue c).isSome || c == ':' || c == '.'

/-- An address in decimal or in hexadecimal, without brackets, port and zone, and without decimal
parts other than those of a mapped IPv4 address. -/
def plainAddress (cs : List Char) : Bool := plainIpv4 cs || plainIpv6 cs || plainMapped cs

/-- Standard notation of a network with such an address. -/
def plainEntry (cs : List Char) : Bool :=
  (network? cs).isSome && plainAddress ((cs.splitOn '/').headD []) && cs.all fun c => !isSpace c

/-- The code has the peer in the network that it reads in the entry. -/
def TakesIn (entry : List Char) (peer : Option String) : Prop :=
  ∃ ip network parsed, normalized peer = some ip ∧ parseCidr entry = .ok (some network) ∧
    ipToBigInt ip = .ok (some parsed) ∧ network.covers parsed = true

/-- What `isTrustedProxy` says of the peer. -/
def trustDecision (env : ProxyEnv) (peer : Option String) : Except RangeError Bool := do
  isTrustedProxy (normalized peer) (← getTrustedProxyNetworks env)

/-- No entry in another notation has the peer. Where an address has a zone with colons, the
code may throw. -/
def NoneWidened (env : ProxyEnv) (peer : Option String) : Prop :=
  (∃ e, trustDecision env peer = .error e) ∨
    ∀ entry ∈ proxyEntries env, TakesIn entry peer → plainEntry entry = true ∧
      (peer.map fun p => plainAddress p.toList) = some true

section
variable {cs part : List Char} {n g : Nat}

theorem octet_ok (h : octet? cs = some n) : Nat.ofDigitChars 10 cs 0 = n ∧ n < 2 ^ 8 := by
  obtain ⟨hn, hle⟩ := Option.filter_eq_some_iff.mp h
  rw [Bool.and_eq_true, decide_eq_true_eq] at hle
  unfold decimal? at hn
  split at hn
  · exact ⟨Option.some.inj hn, by omega⟩
  · cases hn

/-- Values below a power of the base. -/
theorem foldl_lt {b : Nat} {ds : List Nat} (h : ∀ d ∈ ds, d < b) (acc : Nat) :
    ds.foldl (fun acc d => acc * b + d) acc < (acc + 1) * b ^ ds.length := by
  induction ds generalizing acc with
  | nil => simp
  | cons d ds ih =>
    rw [List.forall_mem_cons] at h
    rw [List.foldl_cons, List.length_cons, Nat.pow_succ]
    calc ds.foldl _ (acc * b + d) < (acc * b + d + 1) * b ^ ds.length := ih h.2 _
      _ ≤ (acc * b + b) * b ^ ds.length := Nat.mul_le_mul_right _ (by omega)
      _ = (acc + 1) * (b ^ ds.length * b) := by ring

theorem mapM_some {α β : Type} {f : α → Option β} {xs : List α} {ys : List β}
    (h : xs.mapM f = some ys) :
    List.Forall₂ (fun x y => f x = some y) xs ys := by
  induction xs generalizing ys with
  | nil =>
    cases Option.some.inj h
    exact .nil
  | cons x xs ih =>
    rw [List.mapM_cons] at h
    cases hx : f x with
    | none =>
      rw [hx] at h
      cases h
    | some y =>
      rw [hx] at h
      cases hxs : xs.mapM f with
      | none =>
        rw [hxs] at h
        cases h
      | some ys' =>
        rw [hxs] at h
        cases Option.some.inj h
        exact .cons hx (ih hxs)

theorem mem_of_forall {α β : Type} {R : α → β → Prop} {xs : List α} {ys : List β}
    (h : List.Forall₂ R xs ys) {y : β} (hy : y ∈ ys) : ∃ x, R x y := by
  induction h with
  | nil => cases hy
  | cons hx _ ih =>
    rcases List.mem_cons.mp hy with rfl | hy
    · exact ⟨_, hx⟩
    · exact ih hy

theorem ipv4_read (h : ipv4? cs = some n) : ipv4ToBigInt cs = (n : Int) ∧ n < 2 ^ 32 := by
  unfold ipv4? at h
  split at h
  · rename_i octets hoctets
    split at h
    · rename_i hlen
      cases Option.some.inj h
      have hall := mapM_some hoctets
      have hfold : ∀ (parts : List (List Char)) (octets : List Nat) (acc : Nat),
          List.Forall₂ (fun part n => octet? part = some n) parts octets →
          parts.foldl (fun (acc : Int) part => acc * 2 ^ 8 + (Nat.ofDigitChars 10 part 0 : Int))
            acc =
            (octets.foldl (fun acc n => acc * 2 ^ 8 + n) acc : Nat) := by
        intro parts octets acc hparts
        induction hparts generalizing acc with
        | nil => rfl
        | cons hx _ ih =>
          rw [List.foldl_cons, List.foldl_cons, (octet_ok hx).1, ← ih]
          push_cast
          rfl
      have hlt : ∀ d ∈ octets, d < 2 ^ 8 := by
        intro d hd
        obtain ⟨part, hpart⟩ := mem_of_forall hall hd
        exact (octet_ok hpart).2
      refine ⟨hfold _ _ 0 hall, ?_⟩
      have hvalue := foldl_lt hlt 0
      rwa [hlen] at hvalue
    · cases h
  · cases h

theorem radix_lt {b : Nat} (h : radix? b cs = some n) : n < b ^ cs.length := by
  unfold radix? at h
  split at h
  · cases h
  · obtain ⟨ds, hds, rfl⟩ := Option.map_eq_some_iff.mp h
    have hall := mapM_some hds
    have hlt : ∀ d ∈ ds, d < b := by
      intro d hd
      obtain ⟨c, hc⟩ := mem_of_forall hall hd
      exact of_decide_eq_true (Option.filter_eq_some_iff.mp hc).2
    have hvalue := foldl_lt hlt 0
    rw [hall.length_eq]
    simpa [Nat.mul_comm] using hvalue

theorem hex_of_group (h : group? part = some g) :
    part ≠ [] ∧ (∀ c ∈ part, (hexValue c).isSome = true) ∧
    radix? 16 part = some g ∧ g < 2 ^ 16 := by
  unfold group? at h
  split at h
  · rename_i hlen
    have hlt : g < 2 ^ 16 := by
      refine Nat.lt_of_lt_of_le (radix_lt h) ?_
      calc 16 ^ part.length ≤ 16 ^ 4 := Nat.pow_le_pow_right (by decide) hlen
        _ = 2 ^ 16 := by decide
    have hradix := h
    unfold radix? at h
    split at h
    · cases h
    · rename_i hne
      refine ⟨hne, fun c hc => ?_, hradix, hlt⟩
      obtain ⟨ds, hds, -⟩ := Option.map_eq_some_iff.mp h
      by_contra hnone
      rw [Option.not_isSome_iff_eq_none] at hnone
      have hmem : ∀ (cs : List Char) (ds : List Nat),
        List.Forall₂ (fun c d => (hexValue c).filter (· < 16) = some d) cs ds →
          ∀ c ∈ cs, hexValue c ≠ none := by
        intro cs ds hall
        induction hall with
        | nil => simp
        | cons hx _ ih =>
          refine List.forall_mem_cons.mpr ⟨fun hnone => ?_, ih⟩
          rw [hnone] at hx
          cases hx
      exact hmem _ _ (mapM_some hds) c hc hnone
  · cases h

theorem isSpace_hex {c : Char} (h : (hexValue c).isSome = true) : isSpace c = false := by
  have hrange : (48 ≤ c.toNat ∧ c.toNat ≤ 57) ∨ (65 ≤ c.toNat ∧ c.toNat ≤ 70) ∨
      (97 ≤ c.toNat ∧ c.toNat ≤ 102) := by
    unfold hexValue at h
    split at h
    · exact .inl ‹_›
    split at h
    · exact .inr (.inl ‹_›)
    split at h
    · exact .inr (.inr ‹_›)
    · cases h
  simp only [isSpace, List.contains_eq_mem, List.mem_cons, List.not_mem_nil, or_false,
    Bool.or_eq_false_iff,
    decide_eq_false_iff_not, Bool.and_eq_false_iff]
  omega

/-- `parseInt` reads the hexadecimal digits at the front, where there is no sign. -/
theorem groupToBigInt_eq {value : Nat} (hne : part ≠ []) (hspace : ∀ c ∈ part, isSpace c = false)
    (hsign : part.head? ≠ some '-' ∧ part.head? ≠ some '+') (hmark : ∀ c ∈ part, c ≠ 'x' ∧ c ≠ 'X')
    (hradix : radix? 16 (part.takeWhile fun c => (hexValue c).isSome) = some value)
    (hlt : value < 2 ^ 16) :
    groupToBigInt part = .ok (value : Int) := by
  have hdouble : toDouble value = value := if_pos (Nat.lt_of_lt_of_le hlt (by decide))
  have hsmall : ¬ 2 ^ 1024 ≤ value := by
    have hpow : (2 : Nat) ^ 16 ≤ 2 ^ 1024 :=
      Nat.pow_le_pow_right (by decide) (Nat.le_of_ble_eq_true rfl)
    exact Nat.not_le.mpr (Nat.lt_of_lt_of_le hlt hpow)
  rw [groupToBigInt, if_neg hne]
  unfold parseInt16?
  simp only [dropWhile_none hspace]
  rw [if_neg (by simp [hsign.1, hsign.2])]
  have hminus : (part.head? == some '-') = false := by simpa using hsign.1
  have hunmarked : withoutHexPrefix part = part := by
    unfold withoutHexPrefix
    split
    · exact absurd rfl (hmark 'x' (by simp)).1
    · exact absurd rfl (hmark 'X' (by simp)).2
    · rfl
  rw [hunmarked, hradix, hminus]
  simp only [hdouble]
  rw [if_neg hsmall]
  rfl

/-- A group is read as the number it denotes. -/
theorem group_read (h : group? part = some g) : groupToBigInt part = .ok (g : Int) := by
  obtain ⟨hne, hhex, hradix, hlt⟩ := hex_of_group h
  have hsign : ∀ x, (hexValue x).isSome = false → part.head? ≠ some x := by
    intro x hx hhead
    have := hhex x (List.mem_of_mem_head? hhead)
    rw [hx] at this
    cases this
  refine groupToBigInt_eq hne (fun c hc => isSpace_hex (hhex c hc)) ⟨hsign '-' rfl,
    hsign '+' rfl⟩ (fun c hc => ?_) ?_ hlt
  · constructor
    all_goals
      rintro rfl
      cases hhex _ hc
  · rw [List.takeWhile_eq_self_iff.mpr hhex, hradix]

/-- The parts that the code makes of a text of groups. -/
def partsOf (cs : List Char) : List (List Char) := if cs = [] then [] else cs.splitOn ':'

theorem parts_of_groups {gs : List Nat} (h : groups? cs = some gs) :
    List.Forall₂ (fun part g => group? part = some g) (partsOf cs) gs := by
  unfold groups? at h
  unfold partsOf
  split at h
  · cases Option.some.inj h
    rw [if_pos ‹_›]
    exact .nil
  · rw [if_neg ‹_›]
    exact mapM_some h

theorem zeros_read (k : Nat) :
    List.Forall₂ (fun part g => group? part = some g) (List.replicate k ['0'])
    (List.replicate k 0) := by
  induction k with
  | zero => exact .nil
  | succ k ih => exact .cons (by decide) ih

/-- What is read in each part makes up the number. -/
theorem values_read {parts : List (List Char)} {gs : List Nat}
    (h : List.Forall₂ (fun part (g : Nat) => groupToBigInt part = .ok (g : Int)) parts gs)
    (acc : Nat) :
    parts.foldlM (fun (acc : Int) part => (groupToBigInt part).map fun value =>
      acc * 2 ^ 16 + value) (acc : Int) =
      .ok ((gs.foldl (fun acc n => acc * 2 ^ 16 + n) acc : Nat) : Int) := by
  induction h generalizing acc with
  | nil => rfl
  | cons hx _ ih =>
    rw [List.foldlM_cons, hx, List.foldl_cons, ← ih]
    push_cast
    rfl

theorem parts_read {parts : List (List Char)} {gs : List Nat}
    (h : List.Forall₂ (fun part g => group? part = some g) parts gs) (acc : Nat) :
    parts.foldlM (fun (acc : Int) part => (groupToBigInt part).map fun value =>
      acc * 2 ^ 16 + value) (acc : Int) =
      .ok ((gs.foldl (fun acc n => acc * 2 ^ 16 + n) acc : Nat) : Int) :=
  values_read (h.imp fun _ _ hx => group_read hx) acc

theorem ipv6Value_lt {parts : List (List Char)} {gs : List Nat}
    (h : List.Forall₂ (fun part g => group? part = some g) parts gs) (hlen : gs.length = 8) :
    ipv6Value gs < 2 ^ 128 := by
  have hlt : ∀ d ∈ gs, d < 2 ^ 16 := by
    intro d hd
    obtain ⟨part, hpart⟩ := mem_of_forall h hd
    exact (hex_of_group hpart).2.2.2
  have hvalue := foldl_lt hlt 0
  rw [hlen] at hvalue
  exact hvalue

/-- Eight groups, those in the place of `::` included, are read as the number they denote. -/
theorem ipv6_read (h : hexIpv6? cs = some n) : ipv6ToBigInt cs = .ok (n : Int) ∧ n < 2 ^ 128 := by
  unfold hexIpv6? ipv6Groups? at h
  unfold ipv6ToBigInt
  split at h
  · rename_i whole hsplit
    obtain ⟨gs, hgs, rfl⟩ := Option.map_eq_some_iff.mp h
    obtain ⟨hgs, hlen⟩ := Option.filter_eq_some_iff.mp hgs
    have hlen : gs.length = 8 := by simpa using hlen
    have hparts := parts_of_groups hgs
    have hplen : (partsOf whole).length = 8 := hparts.length_eq.trans hlen
    refine ⟨?_, ipv6Value_lt hparts hlen⟩
    rw [hsplit]
    show (partsOf whole ++ List.replicate (8 - (partsOf whole).length - 0) ['0'] ++ []).foldlM _ _ =
      _
    rw [hplen, List.append_nil, List.replicate_zero, List.append_nil]
    exact parts_read hparts 0
  · rename_i head tail hsplit
    split at h
    · rename_i hs ts hhead htail
      split at h
      · rename_i hroom
        cases Option.some.inj h
        have hheads := parts_of_groups hhead
        have htails := parts_of_groups htail
        have hparts := List.rel_append
          (List.rel_append hheads (zeros_read (8 - hs.length - ts.length))) htails
        refine ⟨?_, ipv6Value_lt hparts ?_⟩
        · rw [hsplit]
          show (partsOf head ++ List.replicate (8 - (partsOf head).length - (partsOf tail).length)
            ['0'] ++
            partsOf tail).foldlM _ _ = _
          rw [hheads.length_eq, htails.length_eq]
          exact parts_read hparts 0
        · simp only [List.length_append, List.length_replicate]
          omega
      · cases h
    · cases h
  · cases h

theorem withoutBrackets_eq (h : '[' ∉ cs) : withoutBrackets cs = cs := by
  unfold withoutBrackets
  split
  · exact absurd List.mem_cons_self h
  · rfl

/-- Without blanks and brackets, only a port and the prefix of a mapped address can go. -/
theorem normalizeIp_eq {x : List Char} {f : Family} (hspace : ∀ c ∈ cs, isSpace c = false)
    (hbracket : '[' ∉ cs) (hx : withoutIpv4MappedPrefix (withoutPort cs) = x)
    (hfamily : isIP x = some f) : normalizeIp (some cs) = some x := by
  unfold normalizeIp
  rw [Option.map_some, trimList_eq hspace]
  have hne : cs ≠ [] := by
    rintro rfl
    have hnil : x = [] := hx.symm
    subst hnil
    cases hfamily
  simp only
  rw [if_neg hne, withoutBrackets_eq hbracket, hx, hfamily]
  rfl

theorem digit_chars {c : Char} (h : (c.isDigit || c == '.') = true) :
    isSpace c = false ∧ c ≠ '[' ∧ c ≠ ':' := by
  rcases Bool.or_eq_true_iff.mp h with h | h
  · refine ⟨isSpace_digit h, ?_, ?_⟩
    all_goals
      rintro rfl
      cases h
  · rw [beq_iff_eq.mp h]
    decide

theorem hex_chars {c : Char} (h : ((hexValue c).isSome || c == ':' || c == '.') = true) :
    isSpace c = false ∧ c ≠ '[' := by
  rcases Bool.or_eq_true_iff.mp h with h | h
  · rcases Bool.or_eq_true_iff.mp h with h | h
    · refine ⟨isSpace_hex h, ?_⟩
      rintro rfl
      cases h
    · rw [beq_iff_eq.mp h]
      decide
  · rw [beq_iff_eq.mp h]
    decide

theorem toLower_ne_colon {c : Char} (h : c ≠ ':') : c.toLower ≠ ':' := by
  unfold Char.toLower
  split
  · rename_i hupper
    intro heq
    have hval : c.val + 32 = 58 := congrArg Char.val heq
    have hlow := UInt32.le_iff_toNat_le.mp (show (65 : UInt32) ≤ c.val from hupper.1)
    have hhigh := UInt32.le_iff_toNat_le.mp (show c.val ≤ 90 from hupper.2)
    have hnat := congrArg UInt32.toNat hval
    rw [UInt32.toNat_add] at hnat
    simp only [UInt32.reduceToNat] at hnat hlow hhigh
    omega
  · exact h

/-- What begins a mapped address has a colon. -/
theorem not_mapped (h : ':' ∉ cs) : hasMappedPrefix cs = false := by
  refine decide_eq_false fun heq => ?_
  cases cs with
  | nil => cases heq
  | cons c cs =>
    rw [List.take_succ_cons, List.map_cons] at heq
    have hc : c.toLower = ':' := (List.cons.inj heq).1
    exact toLower_ne_colon (fun hcc => h (hcc ▸ List.mem_cons_self)) hc

theorem withoutPrefix_eq (h : hasMappedPrefix cs = false) : withoutIpv4MappedPrefix cs = cs :=
  if_neg (of_decide_eq_false h)

/-- What the code reads in an address: its family, its number and the address that it denotes. -/
structure Reads (cs : List Char) (f g : Family) (n : Nat) : Prop where
  parsed : ∃ x, normalizeIp (some cs) = some x ∧ isIP x = some f ∧
    ipToBigInt x = .ok (some (f, (n : Int)))
  bound : n < 2 ^ familyBits f
  address : address? cs = some (g, match f with
    | .ipv4 => mapped n
    | .ipv6 => n)

theorem plainIpv4_reads (h : plainIpv4 cs = true) : ∃ n, ipv4? cs = some n ∧ n < 2 ^ 32 ∧
    normalizeIp (some cs) = some cs ∧ isIP cs = some .ipv4 ∧
    ipToBigInt cs = .ok (some (.ipv4, (n : Int))) := by
  obtain ⟨hleft, hchars⟩ := Bool.and_eq_true_iff.mp h
  obtain ⟨n, hn⟩ := Option.isSome_iff_exists.mp (Bool.and_eq_true_iff.mp hleft).1
  have hchars : ∀ c ∈ cs, isSpace c = false ∧ c ≠ '[' ∧ c ≠ ':' :=
    fun c hc => digit_chars (List.all_eq_true.mp hchars c hc)
  have hfamily : isIP cs = some .ipv4 := if_pos (by rw [hn]; rfl)
  have hcolon : ':' ∉ cs := fun hc => (hchars _ hc).2.2 rfl
  have hport : withoutPort cs = cs := if_neg (by simp [hcolon])
  have hnormal : normalizeIp (some cs) = some cs := by
    refine normalizeIp_eq (fun c hc => (hchars c hc).1) (fun hc => (hchars _ hc).2.1 rfl) ?_ hfamily
    rw [hport, withoutPrefix_eq (not_mapped hcolon)]
  refine ⟨n, hn, (ipv4_read hn).2, hnormal, hfamily, ?_⟩
  unfold ipToBigInt
  rw [hnormal]
  simp only [hfamily]
  rw [(ipv4_read hn).1]

theorem plainIpv6_reads (h : plainIpv6 cs = true) : ∃ n, Reads cs .ipv6 .ipv6 n := by
  obtain ⟨hleft, hchars⟩ := Bool.and_eq_true_iff.mp h
  obtain ⟨hleft, hmark⟩ := Bool.and_eq_true_iff.mp hleft
  obtain ⟨hhex, hnone⟩ := Bool.and_eq_true_iff.mp hleft
  obtain ⟨n, hn⟩ := Option.isSome_iff_exists.mp hhex
  have hnone : ipv4? cs = none := Option.isNone_iff_eq_none.mp hnone
  have hmark : hasMappedPrefix cs = false := by simpa using hmark
  have hchars : ∀ c ∈ cs, ((hexValue c).isSome || c == ':') = true := List.all_eq_true.mp hchars
  have hsix : ipv6? cs = some n := by rw [ipv6?, hn, Option.some_or]
  have hfamily : isIP cs = some .ipv6 := by
    rw [isIP, hnone, hsix]
    rfl
  have hdot : '.' ∉ cs := fun hc => absurd (hchars _ hc) (by decide)
  have hport : withoutPort cs = cs := if_neg (by simp [hdot])
  have hnormal : normalizeIp (some cs) = some cs := by
    refine normalizeIp_eq (fun c hc => (hex_chars ?_).1) (fun hc =>
      absurd (hchars _ hc) (by decide)) ?_ hfamily
    · rw [hchars c hc, Bool.true_or]
    · rw [hport, withoutPrefix_eq hmark]
  refine ⟨n, ⟨cs, hnormal, hfamily, ?_⟩, (ipv6_read hn).2, ?_⟩
  · unfold ipToBigInt
    rw [hnormal]
    simp only [hfamily]
    rw [(ipv6_read hn).1]
    rfl
  · unfold address?
    rw [hnone]
    simp only
    rw [mappedIpv4?, if_neg (of_decide_eq_false hmark), hsix]
    rfl

/-- Behind a dot there is no port. -/
theorem withoutTrailingPort_eq {front back : List Char} (hdot : '.' ∈ back) (hcolon : ':' ∉ back) :
    withoutTrailingPort (front ++ back) = front ++ back := by
  have hrest : ∃ c r, (front ++ back).reverse.dropWhile Char.isDigit = c :: r ∧ c ≠ ':' := by
    rw [List.reverse_append, List.dropWhile_append]
    cases hdrop : back.reverse.dropWhile Char.isDigit with
    | nil =>
      have hdigit := List.dropWhile_eq_nil_iff.mp hdrop '.' (List.mem_reverse.mpr hdot)
      cases hdigit
    | cons c r =>
      refine ⟨c, r ++ front.reverse, rfl, fun hc => hcolon ?_⟩
      have hmem : c ∈ back.reverse := (List.dropWhile_sublist _).subset (hdrop ▸ List.mem_cons_self)
      exact hc ▸ List.mem_reverse.mp hmem
  obtain ⟨c, r, hr, hc⟩ := hrest
  unfold withoutTrailingPort
  rw [hr]
  split
  · rename_i heq
    exact absurd (List.cons.inj heq).1 hc
  · rfl

theorem plainMapped_reads (h : plainMapped cs = true) : ∃ n, Reads cs .ipv4 .ipv6 n := by
  obtain ⟨hleft, hchars⟩ := Bool.and_eq_true_iff.mp h
  obtain ⟨hleft, hmark⟩ := Bool.and_eq_true_iff.mp hleft
  obtain ⟨hplain, hnone⟩ := Bool.and_eq_true_iff.mp hleft
  have hnone : ipv4? cs = none := Option.isNone_iff_eq_none.mp hnone
  have hmark : (cs.take 7).map Char.toLower = "::ffff:".toList := of_decide_eq_true hmark
  have hchars : ∀ c ∈ cs, isSpace c = false ∧ c ≠ '[' :=
    fun c hc => hex_chars (List.all_eq_true.mp hchars c hc)
  obtain ⟨n, hn, hbound, hnormal, hfamily, hparsed⟩ := plainIpv4_reads hplain
  have hback : '.' ∈ cs.drop 7 ∧ ':' ∉ cs.drop 7 := by
    obtain ⟨hleft, hdigits⟩ := Bool.and_eq_true_iff.mp hplain
    refine ⟨by simpa using (Bool.and_eq_true_iff.mp hleft).2, fun hc => ?_⟩
    exact (digit_chars (List.all_eq_true.mp hdigits _ hc)).2.2 rfl
  have hport : withoutPort cs = cs := by
    have heq : withoutTrailingPort (cs.take 7 ++ cs.drop 7) = cs.take 7 ++ cs.drop 7 :=
      withoutTrailingPort_eq hback.1 hback.2
    rw [List.take_append_drop] at heq
    rw [withoutPort, heq, ite_self]
  refine ⟨n, ⟨cs.drop 7, ?_, hfamily, hparsed⟩, hbound, ?_⟩
  · refine normalizeIp_eq (fun c hc => (hchars c hc).1) (fun hc => (hchars _ hc).2 rfl) ?_ hfamily
    rw [hport]
    exact if_pos hmark
  · unfold address?
    rw [hnone]
    simp only
    rw [mappedIpv4?, if_pos hmark, hn]

theorem plainAddress_reads (h : plainAddress cs = true) :
    ∃ f g n, Reads cs f g n ∧ (f = g ∨ (f = .ipv4 ∧ g = .ipv6)) := by
  rcases Bool.or_eq_true_iff.mp h with h | h
  · rcases Bool.or_eq_true_iff.mp h with h | h
    · obtain ⟨n, hn, hbound, hnormal, hfamily, hparsed⟩ := plainIpv4_reads h
      refine ⟨.ipv4, .ipv4, n, ⟨⟨cs, hnormal, hfamily, hparsed⟩, hbound, ?_⟩, .inl rfl⟩
      rw [address?, hn]
    · obtain ⟨n, hn⟩ := plainIpv6_reads h
      exact ⟨_, _, n, hn, .inl rfl⟩
  · obtain ⟨n, hn⟩ := plainMapped_reads h
    exact ⟨_, _, n, hn, .inr ⟨rfl, rfl⟩⟩

/-- Numbers that agree under the mask agree in all but the low bits. -/
theorem div_eq_of_masked {bits p v b : Nat} (hv : v < 2 ^ bits) (hb : b < 2 ^ bits)
    (h : v &&& maskOf bits p = b &&& maskOf bits p) : v / 2 ^ (bits - p) = b / 2 ^ (bits - p) := by
  simp only [maskOf] at h
  split at h
  · rename_i hbits
    rw [hbits, Nat.div_eq_of_lt hv, Nat.div_eq_of_lt hb]
  · apply Nat.eq_of_testBit_eq
    intro i
    rw [Nat.testBit_div_two_pow, Nat.testBit_div_two_pow, Nat.add_comm i]
    rcases Nat.lt_or_ge (bits - p + i) bits with hlt | hge
    · have hbit := congrArg (fun x => Nat.testBit x (bits - p + i)) h
      have hone : Nat.testBit ((1 <<< bits - 1) <<< (bits - p) &&& (1 <<< bits - 1))
          (bits - p + i) = true := by
        rw [Nat.one_shiftLeft, Nat.testBit_and, Nat.testBit_shiftLeft, Nat.testBit_two_pow_sub_one,
          Nat.testBit_two_pow_sub_one]
        simp only [Bool.and_eq_true, decide_eq_true_eq]
        omega
      simpa only [Nat.testBit_and, hone, Bool.and_true] using hbit
    · have hpow : 2 ^ bits ≤ 2 ^ (bits - p + i) := Nat.pow_le_pow_right (by decide) hge
      rw [Nat.testBit_lt_two_pow (Nat.lt_of_lt_of_le hv hpow),
        Nat.testBit_lt_two_pow (Nat.lt_of_lt_of_le hb hpow)]

/-- What the code makes of a number, as the address that it denotes. -/
def embed (f : Family) (n : Nat) : Nat :=
  match f with
  | .ipv4 => mapped n
  | .ipv6 => n

theorem mapped_div {v b h : Nat} (hh : h ≤ 32) (heq : v / 2 ^ h = b / 2 ^ h) :
    mapped v / 2 ^ h = mapped b / 2 ^ h := by
  obtain ⟨k, hk⟩ := Nat.exists_eq_add_of_le hh
  have hsplit : ∀ x, mapped x / 2 ^ h = 0xffff * 2 ^ k + x / 2 ^ h := by
    intro x
    have hmul : 0xffff * 2 ^ 32 = 2 ^ h * (0xffff * 2 ^ k) := by
      rw [hk, Nat.pow_add]
      ring
    rw [mapped, hmul, Nat.mul_add_div (Nat.two_pow_pos h)]
  rw [hsplit, hsplit, heq]

/-- The denoted network has an address that the code's network covers. -/
theorem has_of_masked {f g : Family} {v b p : Nat} (hv : v < 2 ^ familyBits f)
    (hb : b < 2 ^ familyBits f) (hg : f = g ∨ (f = .ipv4 ∧ g = .ipv6)) (hp : p ≤ familyBits f)
    (h : v &&& maskOf (familyBits f) p = b &&& maskOf (familyBits f) p) :
    (⟨embed f b, familyBits g - p⟩ : Network).has (embed f v) = true := by
  have hdiv := div_eq_of_masked hv hb h
  refine decide_eq_true ?_
  rcases hg with rfl | ⟨rfl, rfl⟩
  · cases f with
    | ipv4 => exact mapped_div (Nat.sub_le _ _) hdiv
    | ipv6 => exact hdiv
  · -- a mapped address with an IPv4 prefix: all mapped addresses agree in the first 32 bits
    have hsmall : ∀ x, x < 2 ^ 32 → mapped x / 2 ^ (128 - p) = 0 := by
      intro x hx
      have hp : p ≤ 32 := hp
      have hpow : 2 ^ 96 ≤ 2 ^ (128 - p) := Nat.pow_le_pow_right (by decide) (by omega)
      refine Nat.div_eq_of_lt (Nat.lt_of_lt_of_le ?_ hpow)
      rw [mapped]
      omega
    show mapped v / 2 ^ (128 - p) = mapped b / 2 ^ (128 - p)
    rw [hsmall v hv, hsmall b hb]

/-- Where no length is given, the network is the address alone. -/
theorem has_alone {f : Family} {v b : Nat} (hv : v < 2 ^ familyBits f) (hb : b < 2 ^ familyBits f)
    (h : v &&& maskOf (familyBits f) (familyBits f) = b &&& maskOf (familyBits f) (familyBits f)) :
    (⟨embed f b, 0⟩ : Network).has (embed f v) = true := by
  have hdiv := div_eq_of_masked hv hb h
  rw [Nat.sub_self, Nat.pow_zero, Nat.div_one, Nat.div_one] at hdiv
  exact decide_eq_true (by rw [hdiv])

/-- The code's network for an address in a plain notation. -/
theorem parseCidr_eq {entry : List Char} {f g : Family} {b : Nat} (htrim : trimList entry = entry)
    (hreads : Reads ((entry.splitOn '/').headD []) f g b) {network : TrustedNetwork}
    (h : parseCidr entry = .ok (some network)) :
    ∃ p, (match (entry.splitOn '/').tail with
        | [] => some (familyBits f)
        | rawPrefix :: _ => (number? rawPrefix).bind (integerUpTo (familyBits f))) = some p ∧
      network = ⟨f, Int.land b (maskOf (familyBits f) p), maskOf (familyBits f) p⟩ := by
  obtain ⟨x, hx, hfamily, hparsed⟩ := hreads.parsed
  have hbits : (if isIP x = some .ipv4 then 32 else 128) = familyBits f := by
    rw [hfamily]
    cases f <;> rfl
  unfold parseCidr at h
  simp only [htrim, hx, hbits] at h
  split at h
  · cases h
  · rename_i p hp
    rw [hparsed] at h
    exact ⟨p, hp, (Option.some.inj (Except.ok.inj h)).symm⟩

theorem reads_embed {f g : Family} {n : Nat} (h : Reads cs f g n) :
    address? cs = some (g, embed f n) := by
  rw [h.address]
  cases f <;> rfl

/-- In a plain notation the code reads no more than is denoted. -/
theorem trusted_of_plain {env : ProxyEnv} {peer : Option String} {entry : List Char}
    (hentry : entry ∈ proxyEntries env) (htakes : TakesIn entry peer)
    (hplain : plainEntry entry = true)
    (hpeer : (peer.map fun p => plainAddress p.toList) = some true) :
    PeerTrusted env peer := by
  obtain ⟨text, rfl, htext⟩ := Option.map_eq_some_iff.mp hpeer
  obtain ⟨f, g, v, hv, -⟩ := plainAddress_reads htext
  obtain ⟨hleft, hspace⟩ := Bool.and_eq_true_iff.mp hplain
  obtain ⟨hnetwork, haddress⟩ := Bool.and_eq_true_iff.mp hleft
  obtain ⟨f', g', b, hb, hfamilies⟩ := plainAddress_reads haddress
  have htrim : trimList entry = entry := trimList_eq fun c hc => by
    simpa using List.all_eq_true.mp hspace c hc
  obtain ⟨ip, network, parsed, hip, hcidr, hparsed, hcovers⟩ := htakes
  obtain ⟨x, hx, -, hxparsed⟩ := hv.parsed
  have hip : some x = some ip := hx.symm.trans hip
  obtain rfl := Option.some.inj hip
  obtain rfl := Option.some.inj (Except.ok.inj (hxparsed.symm.trans hparsed))
  obtain ⟨p, hp, rfl⟩ := parseCidr_eq htrim hb hcidr
  obtain ⟨hsame, hmasked⟩ := Bool.and_eq_true_iff.mp hcovers
  have hsame : f' = f := of_decide_eq_true hsame
  subst hsame
  have hmasked : v &&& maskOf (familyBits f') p = b &&& maskOf (familyBits f') p :=
    Int.ofNat.inj (of_decide_eq_true hmasked : Int.land v (maskOf (familyBits f') p) =
      Int.land b (maskOf (familyBits f') p))
  obtain ⟨denoted, hdenoted⟩ := Option.isSome_iff_exists.mp hnetwork
  refine ⟨text, _, entry, denoted, rfl, reads_embed hv, hentry, hdenoted, ?_⟩
  unfold network? at hdenoted
  split at hdenoted
  · rename_i address hsplit
    rw [hsplit] at hb hp
    replace hb : Reads address f' g' b := hb
    have hp : familyBits f' = p := Option.some.inj hp
    subst hp
    rw [reads_embed hb] at hdenoted
    obtain rfl := Option.some.inj hdenoted
    exact has_alone hv.bound hb.bound hmasked
  · rename_i address length hsplit
    rw [hsplit] at hb hp
    replace hb : Reads address f' g' b := hb
    rw [reads_embed hb] at hdenoted
    cases hlength : decimal? length with
    | none =>
      rw [hlength] at hdenoted
      cases hdenoted
    | some n =>
      rw [hlength] at hdenoted
      simp only at hdenoted
      split at hdenoted
      · rename_i hn
        obtain rfl := Option.some.inj hdenoted
        have hp : integerUpTo (familyBits f') (n : Rat) = some p := by
          have hp : (number? length).bind (integerUpTo (familyBits f')) = some p := hp
          rwa [number_digits hlength] at hp
        have hbound : familyBits f' ≤ 128 := by cases f' <;> decide
        have hn128 : n ≤ 128 := Nat.le_trans hn (by cases g' <;> decide)
        obtain ⟨hrounds, hmem, -⟩ := List.find?_range_eq_some.mp hp
        have hpf : p ≤ familyBits f' := Nat.lt_succ_iff.mp (List.mem_range.mp hmem)
        -- the length is read as the number that it is
        have hpn : p = n := by
          rcases Nat.lt_trichotomy p n with hlt | heq | hgt
          · rw [roundsTo_smaller hlt hn128] at hrounds
            cases hrounds
          · exact heq
          · have hself := integerUpTo_self (Nat.le_trans (Nat.le_of_lt hgt) hpf) hbound
            exact (Option.some.inj (hself.symm.trans hp)).symm
        subst hpn
        exact has_of_masked hv.bound hb.bound hfamilies hpf hmasked
      · cases hdenoted
  · cases hdenoted

/-- A network comes from an entry. -/
theorem mem_networks {env : ProxyEnv} {networks : List TrustedNetwork}
    (h : getTrustedProxyNetworks env = .ok networks) {network : TrustedNetwork} :
    network ∈ networks ↔ ∃ entry ∈ proxyEntries env, parseCidr entry = .ok (some network) := by
  unfold getTrustedProxyNetworks at h
  generalize proxyEntries env = entries at h ⊢
  cases hparsed : entries.mapM parseCidr with
  | error e =>
    rw [hparsed] at h
    cases h
  | ok parsed =>
    rw [hparsed] at h
    obtain rfl := Except.ok.inj h
    rw [List.mem_filterMap]
    clear h
    induction entries generalizing parsed with
    | nil =>
      cases hparsed
      simp
    | cons entry entries ih =>
      rw [List.mapM_cons] at hparsed
      cases hentry : parseCidr entry with
      | error e =>
        rw [hentry] at hparsed
        cases hparsed
      | ok x =>
        cases hrest : entries.mapM parseCidr with
        | error e =>
          rw [hentry, hrest] at hparsed
          cases hparsed
        | ok rest =>
          rw [hentry, hrest] at hparsed
          obtain rfl := Except.ok.inj hparsed
          have hmem := ih rest hrest
          simp only [id, List.mem_cons, exists_eq_or_imp, hentry] at hmem ⊢
          simp only [exists_eq_right] at hmem ⊢
          rw [hmem, Except.ok.injEq, eq_comm]

/-- The peer that is no address is no trusted proxy, as none is. -/
theorem isTrustedProxy_unknown (networks : List TrustedNetwork) :
    isTrustedProxy (some "unknown".toList) networks = isTrustedProxy none networks := by
  have hunknown : ipToBigInt "unknown".toList = .ok none := by decide +kernel
  unfold isTrustedProxy
  split
  · rfl
  · rename_i hip
    cases Option.some.inj hip
    simp only [hunknown]
    split <;> rfl

theorem isTrustedProxy_getD (ip : Option (List Char)) (networks : List TrustedNetwork) :
    isTrustedProxy (some (ip.getD "unknown".toList)) networks = isTrustedProxy ip networks := by
  cases ip with
  | none => exact isTrustedProxy_unknown networks
  | some ip => rfl

/-- The code trusts the peer if and only if it has it in the network of an entry. -/
theorem takesIn_of_trusted {env : ProxyEnv} {peer : Option String}
    (h : trustDecision env peer = .ok true) :
    ∃ entry ∈ proxyEntries env, TakesIn entry peer := by
  unfold trustDecision at h
  cases hnetworks : getTrustedProxyNetworks env with
  | error e =>
    rw [hnetworks] at h
    cases h
  | ok networks =>
    rw [hnetworks] at h
    have h : isTrustedProxy (normalized peer) networks = .ok true := h
    unfold isTrustedProxy at h
    split at h
    · cases h
    · rename_i ip hip
      split at h
      · cases h
      · cases hparsed : ipToBigInt ip with
        | error e =>
          rw [hparsed] at h
          cases h
        | ok parsed =>
          rw [hparsed] at h
          cases parsed with
          | none => cases h
          | some parsed =>
            obtain ⟨network, hmem, hcovers⟩ := List.any_eq_true.mp (Except.ok.inj h)
            obtain ⟨entry, hentry, hcidr⟩ := (mem_networks hnetworks).mp hmem
            exact ⟨entry, hentry, ip, network, parsed, hip, hcidr, hparsed, hcovers⟩

theorem trusted_of_takesIn {env : ProxyEnv} {peer : Option String} {entry : List Char}
    (hentry : entry ∈ proxyEntries env) (h : TakesIn entry peer) {trusted : Bool}
    (hdecision : trustDecision env peer = .ok trusted) : trusted = true := by
  obtain ⟨ip, network, parsed, hip, hcidr, hparsed, hcovers⟩ := h
  unfold trustDecision at hdecision
  cases hnetworks : getTrustedProxyNetworks env with
  | error e =>
    rw [hnetworks] at hdecision
    cases hdecision
  | ok networks =>
    rw [hnetworks] at hdecision
    have hmem := (mem_networks hnetworks).mpr ⟨entry, hentry, hcidr⟩
    have hdecision : isTrustedProxy (normalized peer) networks = .ok trusted := hdecision
    unfold isTrustedProxy at hdecision
    rw [hip] at hdecision
    simp only at hdecision
    rw [if_neg (List.ne_nil_of_mem hmem), hparsed] at hdecision
    have htrusted := Except.ok.inj hdecision
    exact htrusted.symm.trans (List.any_eq_true.mpr ⟨network, hmem, hcovers⟩)

/-- The address that a header names, by the order in which they are asked. -/
def headerIp (request : HttpRequest) : Option (List Char) :=
  (normalized request.cfConnectingIp).or <| (normalized request.trueClientIp).or <|
    firstForwardedIp request.xForwardedFor

theorem getClientIp_eq (env : ProxyEnv) (request : HttpRequest) :
    getClientIp env request = (trustDecision env request.remoteAddress).map fun trusted =>
      let remote := (normalized request.remoteAddress).getD "unknown".toList
      String.ofList (if trusted then (headerIp request).getD remote else remote) := by
  unfold getClientIp trustDecision
  simp only [HttpRequest.ip, Option.or_self]
  cases getTrustedProxyNetworks env with
  | error e => rfl
  | ok networks =>
    simp only [bind, Except.bind, isTrustedProxy_getD]
    cases isTrustedProxy (normalized request.remoteAddress) networks with
    | error e => rfl
    | ok trusted => cases trusted <;> rfl

theorem getClientIpAuditContext_eq (env : ProxyEnv) (request : HttpRequest) :
    getClientIpAuditContext env request = (trustDecision env request.remoteAddress).bind
      fun trusted =>
      if trusted then getClientIpAuditContext env request
      else
        let remote := normalized request.remoteAddress
        .ok ⟨remote.map String.ofList, if remote.isSome then some .remoteAddress else none, false,
          remote.map String.ofList⟩ := by
  unfold getClientIpAuditContext trustDecision
  simp only [HttpRequest.ip, Option.or_self]
  cases getTrustedProxyNetworks env with
  | error e => rfl
  | ok networks =>
    simp only [bind, Except.bind]
    cases isTrustedProxy (normalized request.remoteAddress) networks with
    | error e => rfl
    | ok trusted => cases trusted <;> rfl

/-- Any address in a header of a peer that the code trusts is the result. -/
theorem getClientIp_header {env : ProxyEnv} {peer : Option String}
    (h : trustDecision env peer = .ok true) {ip : String}
    (hip : normalized (some ip) = some ip.toList) :
    getClientIp env ⟨peer, some ip, none, none⟩ = .ok ip := by
  rw [getClientIp_eq]
  simp only [h, headerIp, hip, Option.some_or]
  exact congrArg Except.ok (String.ofList_toList)

end
end ClientIp

/-- The length of the prefix is missing. -/
def emptyPrefix : ProxyEnv := ⟨some "10.0.0.0/", none⟩

end Redbox
