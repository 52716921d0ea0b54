import Brooklyn.NetworkUtils

/-!
The two ways to an address with a fixed name. The bytes always agree; the name that is put
together from the bytes has each of them as the signed number that it is.
-/

namespace Brooklyn.NetworkUtils

theorem point_not_mem_toDigits (n : Nat) : '.' ∉ Nat.toDigits 10 n := fun member =>
  absurd (isDigit_toDigits '.' member) (by decide)

theorem point_not_mem_byteText (part : Int8) : '.' ∉ byteText part := by
  unfold byteText
  split
  · rw [List.mem_cons, not_or]
    exact ⟨by decide, point_not_mem_toDigits _⟩
  · exact point_not_mem_toDigits _

theorem split_dotted {parts : List Nat} (several : 2 ≤ parts.length) :
    split '.' (dotted parts) = parts.map (Nat.toDigits 10) := by
  have separated : (dotted parts).splitOn '.' = parts.map (Nat.toDigits 10) := by
    refine List.splitOn_intercalate '.' ?_ ?_
    · intro word member
      obtain ⟨n, _, rfl⟩ := List.mem_map.mp member
      exact point_not_mem_toDigits n
    · rw [Ne, List.map_eq_nil_iff]
      rintro rfl
      cases several
  have pointed : '.' ∈ dotted parts := by
    match parts, several with
    | _ :: _ :: _, _ => simp [dotted]
  rw [split, if_pos pointed, separated, dropWhile_eq_self, List.reverse_reverse]
  intro word head
  obtain ⟨n, _, rfl⟩ := List.mem_map.mp (List.mem_reverse.mp (List.mem_of_mem_head? head))
  exact List.isEmpty_eq_false_iff.mpr Nat.toDigits_ne_nil

theorem signedInteger_toDigits (n : Nat) : signedInteger (Nat.toDigits 10 n) = some (n : Int) := by
  have unsigned : splitSign (Nat.toDigits 10 n) = (false, Nat.toDigits 10 n) := by
    cases digits : Nat.toDigits 10 n with
    | nil => rfl
    | cons first rest =>
      have digit := isDigit_toDigits first (digits ▸ List.mem_cons_self)
      have no_minus : first ≠ '-' := ne_of_isDigit digit (by decide)
      have no_plus : first ≠ '+' := ne_of_isDigit digit (by decide)
      simp [splitSign, no_minus, no_plus]
  have all : (Nat.toDigits 10 n).all Char.isDigit = true := List.all_eq_true.mpr isDigit_toDigits
  simp only [signedInteger, unsigned, if_pos (And.intro Nat.toDigits_ne_nil all),
    decimalValue_toDigits]
  rfl

theorem parseInt_toDigits {n : Nat} (range : n ≤ 255) :
    parseInt (Nat.toDigits 10 n) = some ⟨n, by omega⟩ := by
  rw [parseInt, signedInteger_toDigits, Option.bind_some, dif_pos (by omega)]

/-- `(byte)` of a number. -/
def castByte (n : Nat) : Int8 := Int8.ofInt (n : Int)

/-- The bytes that are parsed are the numbers, each cast. -/
theorem parseAddress_dotted {parts : List Nat} {text : List Char}
    (quad : IsDottedQuad text parts) :
    parseAddress text = .ok (parts.map castByte) := by
  obtain ⟨four, small, rfl⟩ := quad
  rw [parseAddress, split_dotted (by omega)]
  match parts, four with
  | [a, b, c, d], _ =>
    simp only [List.forall_mem_cons] at small
    simp [parseParts, castByte, parseInt_toDigits small.1, parseInt_toDigits small.2.1,
      parseInt_toDigits small.2.2.1, parseInt_toDigits small.2.2.2.1]

theorem foldl_appendPart {name : List Char} (begun : name ≠ []) (ip : List Int8) :
    ip.foldl appendPart name = ['.'].intercalate (name :: ip.map byteText) := by
  induction ip generalizing name with
  | nil => simp
  | cons part rest ih =>
    have appended : appendPart name part = name ++ ['.'] ++ byteText part := by
      rw [appendPart, if_pos (List.length_pos_of_ne_nil begun)]
    rw [List.foldl_cons, appended, ih (by simp), List.map_cons]
    cases rest <;> simp

theorem byteText_ne_nil (part : Int8) : byteText part ≠ [] := by
  unfold byteText
  split
  · exact List.cons_ne_nil _ _
  · exact Nat.toDigits_ne_nil

theorem name_of_bytes (ip : List Int8) :
    ip.foldl appendPart [] = ['.'].intercalate (ip.map byteText) := by
  cases ip with
  | nil => rfl
  | cons part rest =>
    have first : appendPart [] part = byteText part := rfl
    rw [List.foldl_cons, first, foldl_appendPart (byteText_ne_nil part), List.map_cons]

/-- A byte is printed as the number it was parsed from unless it is negative. -/
theorem byteText_cast_iff {n : Nat} (range : n ≤ 255) :
    byteText (castByte n) = Nat.toDigits 10 n ↔ n ≤ 127 := by
  constructor
  · intro same
    by_contra large
    have negative : (castByte n).toInt < 0 := by
      rw [castByte, Int8.toInt_ofInt, Int.bmod_def]
      simp only [Int8.size]
      omega
    rw [byteText, if_pos negative] at same
    exact absurd (isDigit_toDigits '-' (same ▸ List.mem_cons_self)) (by decide)
  · intro small
    have value : (castByte n).toInt = n := Int8.toInt_ofInt_of_le (by omega) (by omega)
    rw [byteText, value, if_neg (by omega), Int.natAbs_natCast]

/-- The name from the bytes is the text when no number is above 127. -/
theorem name_of_parsed_iff {parts : List Nat} {text : List Char}
    (quad : IsDottedQuad text parts) :
    (parts.map castByte).foldl appendPart [] = text ↔
      ∀ part ∈ parts, part ≤ 127 := by
  obtain ⟨four, small, rfl⟩ := quad
  have more : parts ≠ [] := by
    rintro rfl
    cases four
  rw [name_of_bytes, List.map_map, dotted]
  constructor
  · intro same part member
    have separated := congrArg (List.splitOn '.') same
    rw [List.splitOn_intercalate '.' (fun word there => ?_) (mt List.map_eq_nil_iff.mp more),
      List.splitOn_intercalate '.' (fun word there => ?_) (mt List.map_eq_nil_iff.mp more)] at separated
    · exact (byteText_cast_iff (small part member)).mp
        (List.map_inj_left.mp separated part member)
    · obtain ⟨n, _, rfl⟩ := List.mem_map.mp there
      exact point_not_mem_toDigits n
    · obtain ⟨n, _, rfl⟩ := List.mem_map.mp there
      exact point_not_mem_byteText _
  · intro positive
    exact congrArg ['.'].intercalate (List.map_congr_left fun part member =>
      (byteText_cast_iff (small part member)).mpr (positive part member))

/-- For one text: if the pattern accepts it, both ways give the same bytes and the text itself
as the name; and the pattern accepts the dotted quads. -/
structure FixedNameAgrees (getByName : List Char → Except AddressFault InetAddress)
    (text : List Char) : Prop where
  agrees : isValidIpAddress text = true → ∃ ip named fixed,
    parseAddress text = .ok ip ∧
    getInetAddressWithFixedName getByName text = .ok named ∧
    getInetAddressWithFixedNameOfBytes ip = .ok fixed ∧
    named.address = fixed.address ∧ named.hostName = text ∧ fixed.hostName = text
  exact : isValidIpAddress text = true ↔ ∃ parts, IsDottedQuad text parts

theorem fixedNameAgrees_iff (getByName : List Char → Except AddressFault InetAddress)
    (text : List Char) :
    FixedNameAgrees getByName text ↔
      ∀ parts, IsDottedQuad text parts → ∀ part ∈ parts, part ≤ 127 := by
  have built {parts : List Nat} (quad : IsDottedQuad text parts) (name : List Char) :
      getByAddress name (parts.map castByte) =
        .ok ⟨name, parts.map castByte⟩ := by
    rw [getByAddress, if_pos (by rw [List.length_map]; exact quad.1)]
  constructor
  · intro fixed parts quad
    obtain ⟨ip, _, other, parsed, _, printed, _, _, named⟩ :=
      fixed.agrees ((isValidIpAddress_iff text).mpr ⟨parts, quad⟩)
    rw [parseAddress_dotted quad] at parsed
    cases parsed
    rw [getInetAddressWithFixedNameOfBytes, built quad] at printed
    cases printed
    exact (name_of_parsed_iff quad).mp named
  · intro small
    refine ⟨fun accepted => ?_, isValidIpAddress_iff text⟩
    obtain ⟨parts, quad⟩ := (isValidIpAddress_iff text).mp accepted
    refine ⟨_, ⟨text, parts.map castByte⟩, _, parseAddress_dotted quad, ?_, built quad _, rfl, rfl,
      (name_of_parsed_iff quad).mpr (small parts quad)⟩
    rw [getInetAddressWithFixedName, if_pos accepted, parseAddress_dotted quad]
    exact built quad text

-- The bytes of the broadcast address are all -1.
theorem broadcast_name_differs :
    ¬ FixedNameAgrees (fun _ => .error .unknownHost) "255.255.255.255".toList := by
  intro fixed
  have quad : IsDottedQuad "255.255.255.255".toList [255, 255, 255, 255] :=
    ⟨rfl, by simp, by decide⟩
  obtain ⟨ip, _, other, parsed, _, printed, _, _, named⟩ :=
    fixed.agrees ((isValidIpAddress_iff _).mpr ⟨_, quad⟩)
  rw [parseAddress_dotted quad] at parsed
  cases parsed
  cases printed
  exact absurd named (by decide)

end Brooklyn.NetworkUtils
