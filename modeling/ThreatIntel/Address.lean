import Mathlib.Data.Nat.Digits.Lemmas
import ThreatIntel.Net

/-!
# Addresses as numbers

What `ipaddress.ip_address` makes of a text that it accepts: the version,
the number the text spells and the scope of an IPv6 address. Two texts
denote the same address if these agree, which is `__eq__` of the module.
-/

namespace ThreatIntel

structure IpAddress where
  version : IpVersion
  int : Nat
  scope : Option PyStr := none
  deriving DecidableEq, Repr

/-- Digits in a base, the most significant first. -/
def fromBase (base : Nat) (digits : List Nat) : Nat := digits.foldl (fun n d => base * n + d) 0

/-- `IPv4Address._ip_int_from_string`, for a text that it accepts. -/
def ipv4Int (s : PyStr) : Nat :=
  fromBase 256 ((s.splitOn '.').map fun octet => Nat.ofDigitChars 10 octet 0)

def hexDigitValue (c : Char) : Nat :=
  if PyStr.isAsciiDigit c then c.toNat - 48
  else if 'a' ≤ c && c ≤ 'f' then c.toNat - 87
  else c.toNat - 55

/-- `int(hextet, 16)`. -/
def hextetInt (s : PyStr) : Nat := fromBase 16 (s.map hexDigitValue)

/-- The number of each part between the colons, with a trailing IPv4
address as two groups. -/
def ipv6Groups (s : PyStr) : List Nat :=
  let parts := s.splitOn ':'
  match parts.getLast? with
  | some last =>
      if '.' ∈ last then
        parts.dropLast.map hextetInt ++ [ipv4Int last / 0x10000, ipv4Int last % 0x10000]
      else parts.map hextetInt
  | none => []

/-- `IPv6Address._ip_int_from_string`, for a text that it accepts. -/
def ipv6Int (s : PyStr) : Nat :=
  let groups := ipv6Groups s
  match ipv6Parts? s with
  | none => 0
  | some parts =>
      let n := parts.length
      let part := fun i => parts.getD i []
      match (List.range' 1 (n - 2)).find? fun i => part i = [] with
      | none => fromBase 0x10000 groups
      | some skip =>
          let hi := if part 0 = [] then skip - 1 else skip
          let lo := if part (n - 1) = [] then n - skip - 2 else n - skip - 1
          fromBase 0x10000
            (groups.take hi ++ List.replicate (8 - (hi + lo)) 0 ++ groups.drop (n - lo))

/-- `ipaddress.ip_address(value)` with what it returns. -/
def ipAddressOf? (s : PyStr) : Option IpAddress :=
  (ipAddress? s).map fun
    | .v4 => { version := .v4, int := ipv4Int s }
    | .v6 =>
        { version := .v6
          int := ipv6Int (s.takeWhile (· ≠ '%'))
          scope := if '%' ∈ s then some ((s.dropWhile (· ≠ '%')).drop 1) else none }

/-- `IPv4Network` or `IPv6Network`. -/
structure IpNetwork where
  version : IpVersion
  networkAddress : Nat
  netmask : Nat
  deriving DecidableEq, Repr

/-- `address in network`. -/
def IpNetwork.contains (network : IpNetwork) (address : IpAddress) : Bool :=
  network.version = address.version && address.int &&& network.netmask = network.networkAddress

example : ipAddressOf? "::ffff:10.0.0.1".toList = ipAddressOf? "0:0:0:0:0:FFFF:a00:1".toList := by decide +kernel

/-! ## The number of an IPv4 address determines its text -/

theorem fromBase_eq_ofDigits (base : Nat) (digits : List Nat) :
    fromBase base digits = Nat.ofDigits base digits.reverse := by
  rw [Nat.ofDigits_eq_foldr, List.foldr_reverse]
  simp [fromBase, Nat.add_comm]

/-- Lists on which a function is injective and has the same values. -/
theorem eq_of_map_eq {α β : Type*} {f : α → β} {l l' : List α}
    (hinj : ∀ x ∈ l, ∀ y ∈ l', f x = f y → x = y) (h : l.map f = l'.map f) : l = l' := by
  induction l generalizing l' with
  | nil =>
      have hnil : l' = [] := List.map_eq_nil_iff.mp h.symm
      rw [hnil]
  | cons x l ih =>
      cases l' with
      | nil => simp at h
      | cons y l' =>
          simp only [List.map_cons, List.cons.injEq] at h
          rw [hinj x List.mem_cons_self y List.mem_cons_self h.1,
            ih (fun a ha b hb => hinj a (List.mem_cons_of_mem x ha) b (List.mem_cons_of_mem y hb)) h.2]

theorem digitValue_lt {c : Char} (h : PyStr.isAsciiDigit c = true) :
    48 ≤ c.toNat ∧ c.toNat - 48 < 10 := by
  grind [PyStr.isAsciiDigit, Char.le_def, Char.toNat, UInt32.le_iff_toNat_le]

/-- A decimal numeral without leading zeros is determined by its value. -/
theorem eq_of_ofDigitChars {s t : PyStr} (hs : ∀ c ∈ s, PyStr.isAsciiDigit c = true)
    (ht : ∀ c ∈ t, PyStr.isAsciiDigit c = true) (hs0 : s.head? ≠ some '0') (ht0 : t.head? ≠ some '0')
    (h : Nat.ofDigitChars 10 s 0 = Nat.ofDigitChars 10 t 0) : s = t := by
  have hvalue : ∀ u : PyStr, (∀ c ∈ u, PyStr.isAsciiDigit c = true) → u.head? ≠ some '0' →
      Nat.digits 10 (Nat.ofDigitChars 10 u 0) = (u.map fun c => c.toNat - 48).reverse := by
    intro u hu hu0
    have hbase : Nat.ofDigitChars 10 u 0 = Nat.ofDigits 10 (u.map fun c => c.toNat - 48).reverse := by
      rw [← fromBase_eq_ofDigits, Nat.ofDigitChars_eq_foldl, fromBase, List.foldl_map]
      rfl
    rw [hbase]
    refine Nat.digits_ofDigits 10 (by decide) _ ?_ ?_
    · intro d hd
      obtain ⟨c, hc, rfl⟩ := List.mem_map.mp (List.mem_reverse.mp hd)
      exact (digitValue_lt (hu c hc)).2
    · intro hne hzero
      cases u with
      | nil => simp at hne
      | cons c u =>
          have hc := (digitValue_lt (hu c List.mem_cons_self)).1
          have hcode : c.toNat = 48 := by
            simp at hzero
            omega
          refine hu0 ?_
          rw [List.head?_cons, ← c.ofNat_toNat, hcode]
  have hmap : (s.map fun c => c.toNat - 48) = t.map fun c => c.toNat - 48 := by
    rw [← List.reverse_inj, ← hvalue s hs hs0, ← hvalue t ht ht0, h]
  refine eq_of_map_eq (fun c hc d hd hcd => ?_) hmap
  have hc' := digitValue_lt (hs c hc)
  have hd' := digitValue_lt (ht d hd)
  rw [← c.ofNat_toNat, ← d.ofNat_toNat, show c.toNat = d.toNat by omega]

theorem eq_of_isOctet {s t : PyStr} (hs : isOctet s = true) (ht : isOctet t = true)
    (h : Nat.ofDigitChars 10 s 0 = Nat.ofDigitChars 10 t 0) : s = t := by
  have hs' := isAsciiDigit_of_isOctet hs
  have ht' := isAsciiDigit_of_isOctet ht
  have hzero : ∀ u : PyStr, isOctet u = true → u ≠ [] ∧ (u = ['0'] ∨ u.head? ≠ some '0') := by
    intro u hu
    simp only [isOctet, Bool.and_eq_true, Bool.or_eq_true, decide_eq_true_eq] at hu
    exact ⟨hu.1.1.1.1, hu.1.2⟩
  obtain ⟨hsne, hs0 | hs0⟩ := hzero s hs
  · obtain ⟨htne, ht0 | ht0⟩ := hzero t ht
    · rw [hs0, ht0]
    · -- no other numeral has the value zero
      have hnil := eq_of_ofDigitChars ht' (t := []) (by simp) ht0 (by simp) (h.symm.trans (hs0 ▸ rfl))
      exact absurd hnil htne
  · obtain ⟨htne, ht0 | ht0⟩ := hzero t ht
    · have hnil := eq_of_ofDigitChars hs' (t := []) (by simp) hs0 (by simp) (h.trans (ht0 ▸ rfl))
      exact absurd hnil hsne
    · exact eq_of_ofDigitChars hs' ht' hs0 ht0 h

/-- **Two texts of one IPv4 address** are the same text. -/
theorem eq_of_ipv4Int {s t : PyStr} (hs : isIpv4 s = true) (ht : isIpv4 t = true)
    (h : ipv4Int s = ipv4Int t) : s = t := by
  simp only [isIpv4, Bool.and_eq_true, decide_eq_true_eq, List.all_eq_true] at hs ht
  have hlt : ∀ u : PyStr, isOctet u = true → Nat.ofDigitChars 10 u 0 < 256 := by
    intro u hu
    simp only [isOctet, Bool.and_eq_true, decide_eq_true_eq] at hu
    omega
  have hdigits : ∀ u : PyStr, (∀ w ∈ u.splitOn '.', isOctet w = true) →
      ∀ d ∈ ((u.splitOn '.').map fun octet => Nat.ofDigitChars 10 octet 0).reverse, d < 256 := by
    intro u hu d hd
    obtain ⟨w, hw, rfl⟩ := List.mem_map.mp (List.mem_reverse.mp hd)
    exact hlt w (hu w hw)
  rw [ipv4Int, ipv4Int, fromBase_eq_ofDigits, fromBase_eq_ofDigits] at h
  have hvalues := List.reverse_inj.mp (Nat.ofDigits_inj_of_len_eq (by decide)
    (by simp only [List.length_reverse, List.length_map]; rw [hs.1, ht.1]) (hdigits s hs.2) (hdigits t ht.2) h)
  have hoctets := eq_of_map_eq (fun u hu w hw => eq_of_isOctet (hs.2 u hu) (ht.2 w hw)) hvalues
  have hback : ∀ u : PyStr, ['.'].intercalate (u.splitOn '.') = u := fun u =>
    List.intercalate_splitOn '.'
  rw [← hback s, hoctets, hback]

end ThreatIntel
