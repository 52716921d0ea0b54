import Brooklyn.CharacterClasses
import Brooklyn.DoubleParsing
import Brooklyn.JavaNumber

/-!
`NetworkUtils.getInetAddressWithFixedName`, of bytes and of a text, and the pattern that tells
an address from a host name. A pattern that has to match the whole text needs no anchors.
Looking up a host name is a parameter.
-/

namespace Brooklyn

namespace NetworkUtils

/-- `[low-high]` for two digits. -/
def digitRange (low high : Nat) : RegularExpression Char :=
  ((List.range' low (high + 1 - low)).map fun digit => .char digit.digitChar).foldr (· + ·) 0

/-- `[0-9]|[1-9][0-9]|1[0-9]{2}|2[0-4][0-9]|25[0-5]` -/
def octet : RegularExpression Char :=
  digitRange 0 9 + digitRange 1 9 * digitRange 0 9 + .char '1' * digitRange 0 9 ^ 2 +
    .char '2' * digitRange 0 4 * digitRange 0 9 + .char '2' * .char '5' * digitRange 0 5

/-- `VALID_IP_ADDRESS_REGEX` -/
def validIpAddressRegex : RegularExpression Char :=
  (octet * .char '.') ^ 3 * octet

def isValidIpAddress (text : List Char) : Bool :=
  validIpAddressRegex.rmatch text

inductive AddressFault where
  | unknownHost
  | numberFormat
  | indexOutOfBounds
deriving DecidableEq

structure InetAddress where
  hostName : List Char
  address : List Int8
deriving DecidableEq

/-- `InetAddress.getByAddress`: an IPv4-mapped IPv6 address is the IPv4 address. -/
def getByAddress (host : List Char) (addr : List Int8) : Except AddressFault InetAddress :=
  if addr.length = 4 then .ok ⟨host, addr⟩
  else if addr.length = 16 then
    if addr.take 12 = List.replicate 10 0 ++ [-1, -1] then .ok ⟨host, addr.drop 12⟩
    else .ok ⟨host, addr⟩
  else .error .unknownHost

/-- What a `StringBuilder` appends for a byte, which is signed. -/
def byteText (part : Int8) : List Char :=
  if part.toInt < 0 then '-' :: Nat.toDigits 10 part.toInt.natAbs
  else Nat.toDigits 10 part.toInt.natAbs

def appendPart (name : List Char) (part : Int8) : List Char :=
  (if name.length > 0 then name ++ ['.'] else name) ++ byteText part

def getInetAddressWithFixedNameOfBytes (ip : List Int8) : Except AddressFault InetAddress :=
  getByAddress (ip.foldl appendPart []) ip

/-- `String.split`, which drops empty parts at the end. -/
def split (separator : Char) (text : List Char) : List (List Char) :=
  if separator ∈ text then
    ((text.splitOn separator).reverse.dropWhile List.isEmpty).reverse
  else [text]

def parseInt (text : List Char) : Option JavaInt :=
  (signedInteger text).bind fun n =>
    if range : -2147483648 ≤ n ∧ n ≤ 2147483647 then some ⟨n, range⟩ else none

/-- The loop over the parts, into an array of four bytes. -/
def parseParts : List (List Char) → Nat → List Int8 → Except AddressFault (List Int8)
  | [], _, ip => .ok ip
  | part :: rest, i, ip =>
      match parseInt part with
      | none => .error .numberFormat
      | some n =>
          if i < ip.length then parseParts rest (i + 1) (ip.set i (Int8.ofInt n))
          else .error .indexOutOfBounds

def parseAddress (text : List Char) : Except AddressFault (List Int8) :=
  parseParts (split '.' text) 0 [0, 0, 0, 0]

def getInetAddressWithFixedName (getByName : List Char → Except AddressFault InetAddress)
    (hostnameOrIp : List Char) : Except AddressFault InetAddress :=
  if isValidIpAddress hostnameOrIp then
    (parseAddress hostnameOrIp).bind (getByAddress hostnameOrIp)
  else getByName hostnameOrIp

/-- The four numbers in decimal, with points between them. -/
def dotted (parts : List Nat) : List Char :=
  ['.'].intercalate (parts.map (Nat.toDigits 10))

section Grammar
open CharacterClasses

theorem mem_digitRange {low high : Nat} {word : List Char} :
    word ∈ (digitRange low high).matches' ↔
      ∃ digit, low ≤ digit ∧ digit ≤ high ∧ word = [digit.digitChar] := by
  refine (mem_alternatives _ _ word).trans (exists_congr fun digit => ?_)
  rw [List.mem_range'_1, and_assoc]
  refine and_congr_right fun above => and_congr ⟨fun _ => by omega, fun _ => by omega⟩ Iff.rfl

theorem toDigits_snoc {n d : Nat} (more : 0 < n) (digit : d < 10) :
    Nat.toDigits 10 (10 * n + d) = Nat.toDigits 10 n ++ [d.digitChar] := by
  rw [← Nat.toDigits_append_toDigits (by decide) more digit, Nat.toDigits_of_lt_base digit]

theorem toDigits_two {a b : Nat} (first : 0 < a) (a_digit : a < 10) (b_digit : b < 10) :
    Nat.toDigits 10 (10 * a + b) = [a.digitChar, b.digitChar] := by
  rw [toDigits_snoc first b_digit, Nat.toDigits_of_lt_base a_digit]
  rfl

theorem toDigits_three {a b c : Nat} (first : 0 < a) (a_digit : a < 10) (b_digit : b < 10)
    (c_digit : c < 10) :
    Nat.toDigits 10 (10 * (10 * a + b) + c) = [a.digitChar, b.digitChar, c.digitChar] := by
  rw [toDigits_snoc (by omega) c_digit, toDigits_two first a_digit b_digit]
  rfl

/-- The alternatives of `octet`, by their digits. -/
theorem mem_octet_digits {word : List Char} :
    word ∈ octet.matches' ↔
      (∃ a, a ≤ 9 ∧ word = [a.digitChar]) ∨
      (∃ a b, 1 ≤ a ∧ a ≤ 9 ∧ b ≤ 9 ∧ word = [a.digitChar, b.digitChar]) ∨
      (∃ b c, b ≤ 9 ∧ c ≤ 9 ∧ word = ['1', b.digitChar, c.digitChar]) ∨
      (∃ b c, b ≤ 4 ∧ c ≤ 9 ∧ word = ['2', b.digitChar, c.digitChar]) ∨
      ∃ c, c ≤ 5 ∧ word = ['2', '5', c.digitChar] := by
  simp only [octet, RegularExpression.matches'_add, RegularExpression.matches'_mul,
    RegularExpression.matches'_pow, sq, Language.mem_add, Language.mem_mul, mem_char,
    mem_digitRange]
  constructor
  · rintro ((((⟨a, _, ha, rfl⟩ | ⟨_, ⟨a, ha, ha', rfl⟩, _, ⟨b, _, hb, rfl⟩, rfl⟩) |
      ⟨_, rfl, _, ⟨_, ⟨b, _, hb, rfl⟩, _, ⟨c, _, hc, rfl⟩, rfl⟩, rfl⟩) |
      ⟨_, ⟨_, rfl, _, ⟨b, _, hb, rfl⟩, rfl⟩, _, ⟨c, _, hc, rfl⟩, rfl⟩) |
      ⟨_, ⟨_, rfl, _, rfl, rfl⟩, _, ⟨c, _, hc, rfl⟩, rfl⟩)
    · exact Or.inl ⟨a, ha, rfl⟩
    · exact Or.inr (Or.inl ⟨a, b, ha, ha', hb, rfl⟩)
    · exact Or.inr (Or.inr (Or.inl ⟨b, c, hb, hc, rfl⟩))
    · exact Or.inr (Or.inr (Or.inr (Or.inl ⟨b, c, hb, hc, rfl⟩)))
    · exact Or.inr (Or.inr (Or.inr (Or.inr ⟨c, hc, rfl⟩)))
  · rintro (⟨a, ha, rfl⟩ | ⟨a, b, ha, ha', hb, rfl⟩ | ⟨b, c, hb, hc, rfl⟩ | ⟨b, c, hb, hc, rfl⟩ |
      ⟨c, hc, rfl⟩)
    · exact Or.inl (Or.inl (Or.inl (Or.inl ⟨a, Nat.zero_le a, ha, rfl⟩)))
    · exact Or.inl (Or.inl (Or.inl (Or.inr
        ⟨_, ⟨a, ha, ha', rfl⟩, _, ⟨b, Nat.zero_le b, hb, rfl⟩, rfl⟩)))
    · exact Or.inl (Or.inl (Or.inr ⟨_, rfl, _,
        ⟨_, ⟨b, Nat.zero_le b, hb, rfl⟩, _, ⟨c, Nat.zero_le c, hc, rfl⟩, rfl⟩, rfl⟩))
    · exact Or.inl (Or.inr ⟨_, ⟨_, rfl, _, ⟨b, Nat.zero_le b, hb, rfl⟩, rfl⟩, _,
        ⟨c, Nat.zero_le c, hc, rfl⟩, rfl⟩)
    · exact Or.inr ⟨_, ⟨_, rfl, _, rfl, rfl⟩, _, ⟨c, Nat.zero_le c, hc, rfl⟩, rfl⟩

/-- The numbers up to 255, without leading zeros. -/
theorem mem_octet {word : List Char} :
    word ∈ octet.matches' ↔ ∃ n, n ≤ 255 ∧ word = Nat.toDigits 10 n := by
  rw [mem_octet_digits]
  constructor
  · rintro (⟨a, ha, rfl⟩ | ⟨a, b, ha, ha', hb, rfl⟩ | ⟨b, c, hb, hc, rfl⟩ | ⟨b, c, hb, hc, rfl⟩ |
      ⟨c, hc, rfl⟩)
    · exact ⟨a, by omega, (Nat.toDigits_of_lt_base (by omega)).symm⟩
    · exact ⟨10 * a + b, by omega, (toDigits_two ha (by omega) (by omega)).symm⟩
    · exact ⟨10 * (10 * 1 + b) + c, by omega,
        (toDigits_three (a := 1) (by decide) (by decide) (by omega) (by omega)).symm⟩
    · exact ⟨10 * (10 * 2 + b) + c, by omega,
        (toDigits_three (a := 2) (by decide) (by decide) (by omega) (by omega)).symm⟩
    · exact ⟨10 * (10 * 2 + 5) + c, by omega,
        (toDigits_three (a := 2) (b := 5) (by decide) (by decide) (by decide) (by omega)).symm⟩
  · rintro ⟨n, small, rfl⟩
    rcases (by omega : n < 10 ∨ (10 ≤ n ∧ n < 100) ∨ (100 ≤ n ∧ n < 200) ∨
      (200 ≤ n ∧ n < 250) ∨ 250 ≤ n) with one | two | hundreds | twoHundreds | last
    · exact Or.inl ⟨n, by omega, Nat.toDigits_of_lt_base one⟩
    · obtain ⟨a, b, ha, ha', hb, rfl⟩ : ∃ a b, 1 ≤ a ∧ a ≤ 9 ∧ b ≤ 9 ∧ n = 10 * a + b :=
        ⟨n / 10, n % 10, by omega, by omega, by omega, by omega⟩
      exact Or.inr (Or.inl ⟨a, b, ha, ha', hb, toDigits_two ha (by omega) (by omega)⟩)
    · obtain ⟨b, c, hb, hc, rfl⟩ : ∃ b c, b ≤ 9 ∧ c ≤ 9 ∧ n = 10 * (10 * 1 + b) + c :=
        ⟨n / 10 - 10, n % 10, by omega, by omega, by omega⟩
      exact Or.inr (Or.inr (Or.inl ⟨b, c, hb, hc,
        toDigits_three (a := 1) (by decide) (by decide) (by omega) (by omega)⟩))
    · obtain ⟨b, c, hb, hc, rfl⟩ : ∃ b c, b ≤ 4 ∧ c ≤ 9 ∧ n = 10 * (10 * 2 + b) + c :=
        ⟨n / 10 - 20, n % 10, by omega, by omega, by omega⟩
      exact Or.inr (Or.inr (Or.inr (Or.inl ⟨b, c, hb, hc,
        toDigits_three (a := 2) (by decide) (by decide) (by omega) (by omega)⟩)))
    · obtain ⟨c, hc, rfl⟩ : ∃ c, c ≤ 5 ∧ n = 10 * (10 * 2 + 5) + c :=
        ⟨n - 250, by omega, by omega⟩
      exact Or.inr (Or.inr (Or.inr (Or.inr ⟨c, hc,
        toDigits_three (a := 2) (b := 5) (by decide) (by decide) (by decide) (by omega)⟩)))

/-- The text is four numbers from 0 to 255, in decimal without superfluous zeros, and points. -/
def IsDottedQuad (text : List Char) (parts : List Nat) : Prop :=
  parts.length = 4 ∧ (∀ part ∈ parts, part ≤ 255) ∧ text = dotted parts

theorem isValidIpAddress_iff (text : List Char) :
    isValidIpAddress text = true ↔ ∃ parts, IsDottedQuad text parts := by
  rw [isValidIpAddress, RegularExpression.rmatch_iff_matches']
  simp only [validIpAddressRegex, RegularExpression.matches'_mul, RegularExpression.matches'_pow,
    pow_succ, pow_zero, one_mul, Language.mem_mul, mem_char, mem_octet]
  constructor
  · rintro ⟨_, ⟨_, ⟨_, ⟨_, ⟨a, ha, rfl⟩, _, rfl, rfl⟩, _, ⟨_, ⟨b, hb, rfl⟩, _, rfl, rfl⟩, rfl⟩, _,
      ⟨_, ⟨c, hc, rfl⟩, _, rfl, rfl⟩, rfl⟩, _, ⟨d, hd, rfl⟩, rfl⟩
    refine ⟨[a, b, c, d], rfl, by simp [ha, hb, hc, hd], ?_⟩
    simp [dotted, List.intercalate_cons_cons]
  · rintro ⟨parts, four, small, rfl⟩
    match parts, four with
    | [a, b, c, d], _ =>
      simp only [List.forall_mem_cons] at small
      refine ⟨_, ⟨_, ⟨_, ⟨_, ⟨a, small.1, rfl⟩, _, rfl, rfl⟩, _,
        ⟨_, ⟨b, small.2.1, rfl⟩, _, rfl, rfl⟩, rfl⟩, _,
        ⟨_, ⟨c, small.2.2.1, rfl⟩, _, rfl, rfl⟩, rfl⟩, _, ⟨d, small.2.2.2.1, rfl⟩, ?_⟩
      simp [dotted, List.intercalate_cons_cons]

end Grammar
end NetworkUtils
end Brooklyn
