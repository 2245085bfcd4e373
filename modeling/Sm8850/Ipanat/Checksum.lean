/-
  The checksum differences of a NAT rule (`ipa_nat_drvi.c`).

  * `ipCksumFolds`, `tcpUdpCksumFolds`: the running sum of the two functions after
    each of its folds.
  * `foldCarry_toNat`: a fold of two 16-bit values is one's complement addition.
  * `ipCksum_modEq`, `tcpUdpCksum_modEq`: the results as differences modulo 65535.
  * `onesSum`, `inetChecksum`: the one's complement sum of the words a checksum
    covers, and the checksum, which is its complement.
  * `cksumDiffs_adjust`: what adding a difference does to the sum of a packet.
-/
import Sm8850.Ipanat.Rule
import Sm8850.Lib.EndAround

namespace Sm8850.Ipanat

open EndAround

/-! ## The folds -/

/-- The running sums of `foldCarry` over the operands `ws`. -/
def folds (ws : List UInt32) : List UInt32 := ws.scanl (fun cksum w => foldCarry (cksum + w)) 0

/-- The half-words of an address. -/
def loWord (ip : UInt32) : UInt16 := ip.toUInt16
def hiWord (ip : UInt32) : UInt16 := (ip >>> 16).toUInt16

/-- The operands of `ipa_nati_calc_ip_cksum`, as 16-bit words. -/
def ipOperands (pubIpAddr privIpAddr : UInt32) : List UInt16 :=
  [loWord pubIpAddr, hiWord pubIpAddr, loWord (~~~privIpAddr), hiWord (~~~privIpAddr)]

/-- The operands of `ipa_nati_calc_tcp_udp_cksum`, as 16-bit words. -/
def tcpUdpOperands (pubIpAddr : UInt32) (pubPort : UInt16) (privIpAddr : UInt32)
    (privPort : UInt16) : List UInt16 :=
  [loWord pubIpAddr, hiWord pubIpAddr, pubPort, loWord (~~~privIpAddr), hiWord (~~~privIpAddr),
    ~~~privPort]

/-- Every value `ipa_nati_calc_ip_cksum` folds to. -/
def ipCksumFolds (pubIpAddr privIpAddr : UInt32) : List UInt32 :=
  folds ((ipOperands pubIpAddr privIpAddr).map (·.toUInt32))

/-- Every value `ipa_nati_calc_tcp_udp_cksum` folds to. -/
def tcpUdpCksumFolds (pubIpAddr : UInt32) (pubPort : UInt16) (privIpAddr : UInt32)
    (privPort : UInt16) : List UInt32 :=
  folds ((tcpUdpOperands pubIpAddr pubPort privIpAddr privPort).map (·.toUInt32))

/-- A fold of two 16-bit values is their one's complement sum. -/
theorem foldCarry_toNat {cksum w : UInt32} (hc : cksum.toNat ≤ 65535) (hw : w.toNat ≤ 65535) :
    (foldCarry (cksum + w)).toNat = eac 65535 cksum.toNat w.toNat := by
  have hadd : (cksum + w).toNat = cksum.toNat + w.toNat := by
    rw [UInt32.toNat_add]
    exact Nat.mod_eq_of_lt (by omega)
  have hcarry : (cksum + w) >>> 16 ≠ 0 ↔ 65535 < cksum.toNat + w.toNat := by
    rw [Ne, ← UInt32.toNat_inj, UInt32.toNat_shiftRight, hadd]
    change ¬ (cksum.toNat + w.toNat) >>> 16 = 0 ↔ _
    rw [Nat.shiftRight_eq_div_pow]
    omega
  unfold foldCarry eac
  by_cases h : cksum.toNat + w.toNat ≤ 65535
  · rw [if_neg (fun hx => absurd (hcarry.1 hx) (not_lt.2 h)), if_pos h, hadd]
  · rw [if_pos (hcarry.2 (not_le.1 h)), if_neg h, UInt32.toNat_add, UInt32.toNat_and, hadd]
    change ((cksum.toNat + w.toNat &&& (2 ^ 16 - 1)) + 1) % 2 ^ 32 = _
    rw [Nat.and_two_pow_sub_one_eq_mod]
    omega

theorem toUInt32_toNat_le (w : UInt16) : w.toUInt32.toNat ≤ 65535 := by
  rw [UInt16.toNat_toUInt32]
  exact Nat.le_of_lt_succ w.toNat_lt

/-- A run of folds is the one's complement sum, and no fold leaves 16 bits. -/
theorem foldl_foldCarry (ws : List UInt16) {c : UInt32} (hc : c.toNat ≤ 65535) :
    ((ws.map (·.toUInt32)).foldl (fun cksum w => foldCarry (cksum + w)) c).toNat =
        (ws.map (·.toNat)).foldl (eac 65535) c.toNat ∧
      ∀ x ∈ (ws.map (·.toUInt32)).scanl (fun cksum w => foldCarry (cksum + w)) c,
        x.toNat ≤ 65535 := by
  induction ws generalizing c with
  | nil => simp [hc]
  | cons w ws ih =>
    have hw := toUInt32_toNat_le w
    have hstep := foldCarry_toNat hc hw
    have hle : (foldCarry (c + w.toUInt32)).toNat ≤ 65535 := hstep ▸ eac_le hc hw
    obtain ⟨hsum, hall⟩ := ih hle
    refine ⟨?_, ?_⟩
    · rw [List.map_cons, List.map_cons, List.foldl_cons, List.foldl_cons, hsum, hstep,
        UInt16.toNat_toUInt32]
    · rw [List.map_cons, List.scanl_cons, List.forall_mem_cons]
      exact ⟨hc, hall⟩

theorem folds_le (ws : List UInt16) {x : UInt32} (hx : x ∈ folds (ws.map (·.toUInt32))) :
    x.toNat ≤ 65535 :=
  (foldl_foldCarry ws (c := 0) (by decide)).2 x hx

/-- The last fold, cut to 16 bits, is the sum. -/
theorem foldl_toUInt16 (ws : List UInt16) :
    ((ws.map (·.toUInt32)).foldl (fun cksum w => foldCarry (cksum + w)) 0).toUInt16.toNat =
      EndAround.sum 65535 (ws.map (·.toNat)) := by
  have h := (foldl_foldCarry ws (c := 0) (by decide)).1
  have hle : EndAround.sum 65535 (ws.map (·.toNat)) ≤ 65535 :=
    sum_le fun w hw => by
      obtain ⟨v, -, rfl⟩ := List.mem_map.1 hw
      exact Nat.le_of_lt_succ v.toNat_lt
  rw [UInt32.toNat_toUInt16, h]
  exact Nat.mod_eq_of_lt (Nat.lt_succ_of_le hle)

/-! ## The results are the last folds -/

private theorem mask_eq_loWord (ip : UInt32) : ip &&& 0xFFFF = (loWord ip).toUInt32 := by
  refine UInt32.toNat_inj.1 ?_
  rw [UInt32.toNat_and, UInt16.toNat_toUInt32, loWord, UInt32.toNat_toUInt16]
  exact Nat.and_two_pow_sub_one_eq_mod _ 16

private theorem shift_eq_hiWord (ip : UInt32) : ip >>> 16 = (hiWord ip).toUInt32 := by
  refine UInt32.toNat_inj.1 ?_
  have := ip.toNat_lt
  rw [UInt16.toNat_toUInt32, hiWord, UInt32.toNat_toUInt16, UInt32.toNat_shiftRight]
  change ip.toNat >>> 16 = ip.toNat >>> 16 % 2 ^ 16
  rw [Nat.shiftRight_eq_div_pow]
  omega

/-- The first half-word needs no fold. -/
private theorem foldCarry_zero_add (w : UInt16) : foldCarry (0 + w.toUInt32) = w.toUInt32 := by
  refine UInt32.toNat_inj.1 ?_
  rw [foldCarry_toNat (by decide) (toUInt32_toNat_le w)]
  exact (if_pos (by simpa using toUInt32_toNat_le w)).trans (Nat.zero_add _)

theorem ipaNatiCalcIpCksum_eq (pubIpAddr privIpAddr : UInt32) :
    (ipaNatiCalcIpCksum pubIpAddr privIpAddr).toNat =
      EndAround.sum 65535 ((ipOperands pubIpAddr privIpAddr).map (·.toNat)) := by
  rw [← foldl_toUInt16]
  simp only [ipOperands, List.map_cons, List.map_nil, List.foldl_cons, List.foldl_nil,
    foldCarry_zero_add, ipaNatiCalcIpCksum, mask_eq_loWord, shift_eq_hiWord]

theorem ipaNatiCalcTcpUdpCksum_eq (pubIpAddr : UInt32) (pubPort : UInt16) (privIpAddr : UInt32)
    (privPort : UInt16) :
    (ipaNatiCalcTcpUdpCksum pubIpAddr pubPort privIpAddr privPort).toNat =
      EndAround.sum 65535
        ((tcpUdpOperands pubIpAddr pubPort privIpAddr privPort).map (·.toNat)) := by
  rw [← foldl_toUInt16]
  simp only [tcpUdpOperands, List.map_cons, List.map_nil, List.foldl_cons, List.foldl_nil,
    foldCarry_zero_add, ipaNatiCalcTcpUdpCksum, mask_eq_loWord, shift_eq_hiWord]

/-- The results are the last folds, cut to 16 bits. -/
theorem ipCksumFolds_getLast (pubIpAddr privIpAddr : UInt32) :
    ((ipCksumFolds pubIpAddr privIpAddr).getLast?.getD 0).toUInt16 =
      ipaNatiCalcIpCksum pubIpAddr privIpAddr := by
  simp only [ipCksumFolds, folds, List.getLast?_scanl, Option.getD_some, ipOperands, List.map_cons,
    List.map_nil, List.foldl_cons, List.foldl_nil, foldCarry_zero_add, ipaNatiCalcIpCksum,
    mask_eq_loWord, shift_eq_hiWord]

theorem tcpUdpCksumFolds_getLast (pubIpAddr : UInt32) (pubPort : UInt16) (privIpAddr : UInt32)
    (privPort : UInt16) :
    ((tcpUdpCksumFolds pubIpAddr pubPort privIpAddr privPort).getLast?.getD 0).toUInt16 =
      ipaNatiCalcTcpUdpCksum pubIpAddr pubPort privIpAddr privPort := by
  simp only [tcpUdpCksumFolds, folds, List.getLast?_scanl, Option.getD_some, tcpUdpOperands,
    List.map_cons, List.map_nil, List.foldl_cons, List.foldl_nil, foldCarry_zero_add,
    ipaNatiCalcTcpUdpCksum, mask_eq_loWord, shift_eq_hiWord]

/-! ## Differences of words -/

/-- The operands of a difference: the words added, and the complements of those taken
    away. -/
def diffOperands (pub priv : List UInt16) : List UInt16 := pub ++ priv.map (~~~ ·)

theorem toNat_not (w : UInt16) : (~~~w).toNat = 65535 - w.toNat := by
  rw [UInt16.toNat_not]
  rfl

private theorem loWord_not (ip : UInt32) : loWord (~~~ip) = ~~~loWord ip := by
  refine UInt16.toNat_inj.1 ?_
  have := ip.toNat_lt
  rw [toNat_not, loWord, loWord, UInt32.toNat_toUInt16, UInt32.toNat_toUInt16, UInt32.toNat_not]
  change (2 ^ 32 - 1 - ip.toNat) % 2 ^ 16 = 65535 - ip.toNat % 2 ^ 16
  omega

private theorem hiWord_toNat (ip : UInt32) : (hiWord ip).toNat = ip.toNat / 2 ^ 16 := by
  have := ip.toNat_lt
  rw [hiWord, UInt32.toNat_toUInt16, UInt32.toNat_shiftRight]
  change ip.toNat >>> 16 % 2 ^ 16 = _
  rw [Nat.shiftRight_eq_div_pow]
  omega

private theorem hiWord_not (ip : UInt32) : hiWord (~~~ip) = ~~~hiWord ip := by
  refine UInt16.toNat_inj.1 ?_
  have := ip.toNat_lt
  rw [toNat_not, hiWord_toNat, hiWord_toNat, UInt32.toNat_not]
  change (2 ^ 32 - 1 - ip.toNat) / 2 ^ 16 = 65535 - ip.toNat / 2 ^ 16
  omega

/-- The half-words of an address, in the order in which they are added. -/
def addrWords (ip : UInt32) : List UInt16 := [loWord ip, hiWord ip]

theorem ipOperands_eq (pubIpAddr privIpAddr : UInt32) :
    ipOperands pubIpAddr privIpAddr =
      diffOperands (addrWords pubIpAddr) (addrWords privIpAddr) := by
  simp only [ipOperands, loWord_not, hiWord_not]
  rfl

theorem tcpUdpOperands_eq (pubIpAddr : UInt32) (pubPort : UInt16) (privIpAddr : UInt32)
    (privPort : UInt16) :
    tcpUdpOperands pubIpAddr pubPort privIpAddr privPort =
      diffOperands (addrWords pubIpAddr ++ [pubPort]) (addrWords privIpAddr ++ [privPort]) := by
  simp only [tcpUdpOperands, loWord_not, hiWord_not]
  rfl

/-- The number a list of words stands for, with their sum as an integer. -/
def wordSum (ws : List UInt16) : ℕ := (ws.map (·.toNat)).sum

@[simp] theorem wordSum_nil : wordSum [] = 0 := rfl
@[simp] theorem wordSum_cons (w : UInt16) (ws : List UInt16) :
    wordSum (w :: ws) = w.toNat + wordSum ws := List.sum_cons
@[simp] theorem wordSum_append (ws ws' : List UInt16) :
    wordSum (ws ++ ws') = wordSum ws + wordSum ws' := by
  rw [wordSum, List.map_append, List.sum_append]
  rfl

theorem wordSum_not (ws : List UInt16) :
    wordSum (ws.map (~~~ ·)) + wordSum ws = 65535 * ws.length := by
  induction ws with
  | nil => rfl
  | cons w ws ih =>
    have hw : w.toNat ≤ 65535 := Nat.le_of_lt_succ w.toNat_lt
    simp only [List.map_cons, wordSum_cons, toNat_not, List.length_cons]
    omega

/-! ## Packets -/

/-- The one's complement sum of the words a checksum covers. -/
def onesSum (ws : List UInt16) : ℕ := EndAround.sum 65535 (ws.map (·.toNat))

/-- The checksum of a packet: the complement of the sum of its words, those of the
    checksum field itself counting as zero. -/
def inetChecksum (ws : List UInt16) : ℕ := compl 65535 (onesSum ws)

private theorem words_le (ws : List UInt16) : ∀ n ∈ ws.map (·.toNat), n ≤ 65535 := by
  intro n hn
  obtain ⟨w, -, rfl⟩ := List.mem_map.1 hn
  exact Nat.le_of_lt_succ w.toNat_lt

theorem onesSum_le (ws : List UInt16) : onesSum ws ≤ 65535 := sum_le (words_le ws)

theorem onesSum_modEq (ws : List UInt16) : onesSum ws ≡ wordSum ws [MOD 65535] := sum_modEq

theorem onesSum_eq_zero {ws : List UInt16} : onesSum ws = 0 ↔ ∀ w ∈ ws, w = 0 := by
  rw [onesSum, sum_eq_zero, List.forall_mem_map]
  exact forall₂_congr fun w _ => by rw [← UInt16.toNat_inj]; rfl

theorem onesSum_perm {ws ws' : List UInt16} (h : ws.Perm ws') : onesSum ws = onesSum ws' :=
  sum_perm (words_le ws) (h.map _)

/-- The sum of a difference is the difference of the sums. -/
theorem onesSum_diffOperands (pub priv : List UInt16) :
    (onesSum (diffOperands pub priv) : ℤ) ≡ wordSum pub - wordSum priv [ZMOD 65535] := by
  have h := Int.natCast_modEq_iff.2 (onesSum_modEq (diffOperands pub priv))
  have hn := wordSum_not priv
  rw [diffOperands, wordSum_append] at h
  refine h.trans (Int.modEq_iff_dvd.2 ⟨-priv.length, ?_⟩)
  push_cast
  omega

/-- **Exchanging words.**  In a packet that carries `priv`, with other words `rest`,
    adding the difference to the sum makes it the sum of the packet that carries
    `pub` instead, wherever in the two the words stand.  The all-zero packet alone
    has a sum that no addition gives. -/
theorem eac_onesSum {pub priv rest ws ws' : List UInt16} (hne : priv ≠ [])
    (hw : ws.Perm (priv ++ rest)) (hw' : ws'.Perm (pub ++ rest)) (hnz : ∃ w ∈ ws', w ≠ 0) :
    eac 65535 (onesSum ws) (onesSum (diffOperands pub priv)) = onesSum ws' := by
  refine eac_sum_eq (onesSum_le _) (words_le ws) (words_le ws') ?_ ?_ ?_
  · have hn := wordSum_not priv
    have hs : (ws.map (·.toNat)).sum = wordSum priv + wordSum rest := by
      rw [(hw.map _).sum_eq]
      exact wordSum_append priv rest
    have hs' : (ws'.map (·.toNat)).sum = wordSum pub + wordSum rest := by
      rw [(hw'.map _).sum_eq]
      exact wordSum_append pub rest
    rw [hs, hs']
    calc wordSum priv + wordSum rest + onesSum (diffOperands pub priv)
        ≡ wordSum priv + wordSum rest + wordSum (diffOperands pub priv) [MOD 65535] :=
          (onesSum_modEq _).add_left _
      _ = wordSum pub + wordSum rest + 65535 * priv.length := by
          rw [diffOperands, wordSum_append]
          omega
      _ ≡ wordSum pub + wordSum rest [MOD 65535] := by simp [Nat.ModEq]
  · obtain ⟨w, hm, hz⟩ := hnz
    exact ⟨w.toNat, List.mem_map.2 ⟨w, hm, rfl⟩, fun h => hz (UInt16.toNat_inj.1 h)⟩
  · -- a private word of zero enters the difference as 0xFFFF
    by_contra hc
    push Not at hc
    obtain ⟨p, hp⟩ := List.exists_mem_of_ne_nil _ hne
    have h0 : p = 0 :=
      onesSum_eq_zero.1 hc.1 p (hw.mem_iff.2 (List.mem_append_left _ hp))
    have hf : ~~~p = 0 :=
      onesSum_eq_zero.1 hc.2 (~~~p) (List.mem_append_right _ (List.mem_map_of_mem hp))
    rw [h0] at hf
    exact absurd hf (by decide)

/-- The same for the checksum, which is the complement of the sum. -/
theorem inetChecksum_exchange {pub priv rest ws ws' : List UInt16} (hne : priv ≠ [])
    (hw : ws.Perm (priv ++ rest)) (hw' : ws'.Perm (pub ++ rest)) (hnz : ∃ w ∈ ws', w ≠ 0) :
    compl 65535 (eac 65535 (compl 65535 (inetChecksum ws)) (onesSum (diffOperands pub priv))) =
      inetChecksum ws' := by
  rw [inetChecksum, compl_compl (onesSum_le ws), eac_onesSum hne hw hw' hnz]
  rfl

/-- The words of an address and a port. -/
def addrPortWords (ip : UInt32) (port : UInt16) : List UInt16 := addrWords ip ++ [port]

theorem toNat_ipaNatiCalcIpCksum (pubIpAddr privIpAddr : UInt32) :
    (ipaNatiCalcIpCksum pubIpAddr privIpAddr).toNat =
      onesSum (diffOperands (addrWords pubIpAddr) (addrWords privIpAddr)) := by
  rw [ipaNatiCalcIpCksum_eq, ipOperands_eq]
  rfl

theorem toNat_ipaNatiCalcTcpUdpCksum (pubIpAddr : UInt32) (pubPort : UInt16)
    (privIpAddr : UInt32) (privPort : UInt16) :
    (ipaNatiCalcTcpUdpCksum pubIpAddr pubPort privIpAddr privPort).toNat =
      onesSum (diffOperands (addrPortWords pubIpAddr pubPort)
        (addrPortWords privIpAddr privPort)) := by
  rw [ipaNatiCalcTcpUdpCksum_eq, tcpUdpOperands_eq]
  rfl

/-- What adding `cksum` does to the packets that carry the words `priv`: it makes the
    sum, and through complements the checksum, that of the packet carrying `pub`. -/
def Adjusts (cksum : UInt16) (pub priv : List UInt16) : Prop :=
  ∀ rest ws ws' : List UInt16, ws.Perm (priv ++ rest) → ws'.Perm (pub ++ rest) →
    (∃ w ∈ ws', w ≠ 0) →
    eac 65535 (onesSum ws) cksum.toNat = onesSum ws' ∧
      compl 65535 (eac 65535 (compl 65535 (inetChecksum ws)) cksum.toNat) = inetChecksum ws'

theorem adjusts_of_eq {cksum : UInt16} {pub priv : List UInt16} (hne : priv ≠ [])
    (h : cksum.toNat = onesSum (diffOperands pub priv)) : Adjusts cksum pub priv := by
  intro rest ws ws' hw hw' hnz
  rw [h]
  exact ⟨eac_onesSum hne hw hw' hnz, inetChecksum_exchange hne hw hw' hnz⟩

/-- **The checksum differences.**  Both are the difference of the public and the
    private words modulo 65535, every fold on the way stays within 16 bits, the last
    one is the result, and adding it adjusts every packet. -/
theorem cksumDiffs_adjust (pubIpAddr privIpAddr : UInt32) (pubPort privPort : UInt16) :
    (((ipaNatiCalcTcpUdpCksum pubIpAddr pubPort privIpAddr privPort).toNat : ℤ) ≡
        (hiWord pubIpAddr).toNat + (loWord pubIpAddr).toNat + pubPort.toNat -
          (hiWord privIpAddr).toNat - (loWord privIpAddr).toNat - privPort.toNat
        [ZMOD 65535] ∧
      ((ipaNatiCalcIpCksum pubIpAddr privIpAddr).toNat : ℤ) ≡
        (hiWord pubIpAddr).toNat + (loWord pubIpAddr).toNat -
          (hiWord privIpAddr).toNat - (loWord privIpAddr).toNat [ZMOD 65535]) ∧
    ((∀ cksum ∈ tcpUdpCksumFolds pubIpAddr pubPort privIpAddr privPort,
        cksum.toNat ≤ 0xFFFF) ∧
      ((tcpUdpCksumFolds pubIpAddr pubPort privIpAddr privPort).getLast?.getD 0).toUInt16 =
        ipaNatiCalcTcpUdpCksum pubIpAddr pubPort privIpAddr privPort ∧
      (∀ cksum ∈ ipCksumFolds pubIpAddr privIpAddr, cksum.toNat ≤ 0xFFFF) ∧
      ((ipCksumFolds pubIpAddr privIpAddr).getLast?.getD 0).toUInt16 =
        ipaNatiCalcIpCksum pubIpAddr privIpAddr) ∧
    Adjusts (ipaNatiCalcTcpUdpCksum pubIpAddr pubPort privIpAddr privPort)
      (addrPortWords pubIpAddr pubPort) (addrPortWords privIpAddr privPort) ∧
    Adjusts (ipaNatiCalcIpCksum pubIpAddr privIpAddr) (addrWords pubIpAddr)
      (addrWords privIpAddr) := by
  refine ⟨⟨?tcpUdp, ?ip⟩, ⟨?tcpUdpFolds, ?tcpUdpLast, ?ipFolds, ?ipLast⟩, ?tcpUdpPackets,
    ?ipPackets⟩
  case tcpUdp =>
    rw [toNat_ipaNatiCalcTcpUdpCksum]
    refine (onesSum_diffOperands _ _).trans (congrArg (· % (65535 : ℤ)) ?_)
    simp only [addrPortWords, addrWords, List.cons_append, List.nil_append, wordSum_cons,
      wordSum_nil]
    push_cast
    omega
  case ip =>
    rw [toNat_ipaNatiCalcIpCksum]
    refine (onesSum_diffOperands _ _).trans (congrArg (· % (65535 : ℤ)) ?_)
    simp only [addrWords, wordSum_cons, wordSum_nil]
    push_cast
    omega
  case tcpUdpFolds => exact fun _ hx => folds_le _ hx
  case tcpUdpLast => exact tcpUdpCksumFolds_getLast ..
  case ipFolds => exact fun _ hx => folds_le _ hx
  case ipLast => exact ipCksumFolds_getLast ..
  case tcpUdpPackets =>
    exact adjusts_of_eq (List.cons_ne_nil _ _) (toNat_ipaNatiCalcTcpUdpCksum ..)
  case ipPackets => exact adjusts_of_eq (List.cons_ne_nil _ _) (toNat_ipaNatiCalcIpCksum ..)

/-- A packet of 10.0.0.1, port 1024, sent as 1.2.3.4, port 80. -/
theorem cksumDiffs_adjust_packet :
    eac 65535 (onesSum [0x0A00, 0x0001, 0x0400, 0x0006])
        (ipaNatiCalcTcpUdpCksum 0x01020304 80 0x0A000001 1024).toNat =
      onesSum [0x0102, 0x0304, 0x0050, 0x0006] :=
  ((cksumDiffs_adjust 0x01020304 0x0A000001 80 1024).2.2.1 [0x0006] _ _ (by decide) (by decide)
    ⟨0x0006, by decide, by decide⟩).1

/-- Added to the checksum itself the difference has the wrong sign, and added to the
    sum of the packet of zeros it gives the other zero. -/
theorem cksumDiff_to_checksum :
    ¬ (∀ (pubIpAddr privIpAddr : UInt32) (pubPort privPort : UInt16) (rest ws ws' : List UInt16),
        ws.Perm (addrPortWords privIpAddr privPort ++ rest) →
        ws'.Perm (addrPortWords pubIpAddr pubPort ++ rest) →
        eac 65535 (inetChecksum ws)
            (ipaNatiCalcTcpUdpCksum pubIpAddr pubPort privIpAddr privPort).toNat =
          inetChecksum ws') ∧
    eac 65535 (onesSum [0, 0, 0]) (ipaNatiCalcTcpUdpCksum 0 0 0 0).toNat ≠ onesSum [0, 0, 0] := by
  refine ⟨fun h => ?_, by decide⟩
  have := h 0x01020304 0x0A000001 80 1024 [0x0006] [0x0A00, 0x0001, 0x0400, 0x0006]
    [0x0102, 0x0304, 0x0050, 0x0006] (by decide) (by decide)
  exact absurd this (by decide)

end Sm8850.Ipanat
