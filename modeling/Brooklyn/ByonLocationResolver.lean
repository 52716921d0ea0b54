import Brooklyn.KeyValueParser
import Brooklyn.NumericRangeExpansion
import Brooklyn.QuotedLists

/-!
`ByonLocationResolver`: a spec is matched with a pattern, its arguments are read as keys and values,
and the hosts among them are expanded. A comma between two hosts ends the argument unless it stands
in quotes.
-/

namespace Brooklyn.ByonLocationResolver
open QuotedStringTokenizer Rounds

/-- `SshMachineLocation`, what its constructor is given. -/
structure Machine where
  user : Option (List Char)
  address : List Char
  deriving DecidableEq

/-- The flags that are read, and all others. -/
structure LocationFlags (Other : Type) where
  name : Option (List Char)
  user : Option (List Char)
  others : Other

/-- `FixedListMachineProvisioningLocation`, the flags that it is made with. -/
structure ByonLocation (Other : Type) where
  machines : List Machine
  flags : LocationFlags Other

inductive ByonFailure where
  | invalidLocation
  | illegalArgs (illegalArgs : List (List Char))
  | noHost
  | emptyName
  | expansion (failure : WildcardGlobs.ExpansionFailure)
  | invalidHost (hostHere : List Char)
  deriving DecidableEq

/-- What `.` does not match. -/
def isLineTerminator (c : Char) : Bool := ['\n', '\r', '\x85', '\u2028', '\u2029'].contains c

/-- The second group of `(byon|BYON):\((.*)\)$` where that matches. -/
def argsPart (spec : List Char) : Option (List Char) :=
  if spec.take 4 ∈ ["byon".toList, "BYON".toList] ∧ (spec.drop 4).take 2 = [':', '('] ∧
      (spec.drop 6).getLast? = some ')' ∧
      (spec.drop 6).dropLast.all (fun c => !isLineTerminator c) = true then
    some (spec.drop 6).dropLast
  else none

/-- `ACCEPTABLE_ARGS` -/
def acceptableArgs : List (List Char) := ["hosts".toList, "name".toList, "user".toList]

section Machines

-- Whether `InetAddress.getByName` returns.
variable (resolvable : List Char → Bool)

def machine (user : Option (List Char)) (host : List Char) : Except ByonFailure Machine :=
  let userHere := if '@' ∈ host then some (host.takeWhile (· ≠ '@')) else user
  let hostHere := if '@' ∈ host then (host.dropWhile (· ≠ '@')).drop 1 else host
  if resolvable hostHere then
    match userHere with
    | some (c :: name) => .ok ⟨some (trim (c :: name)), trim hostHere⟩
    | _ => .ok ⟨none, trim hostHere⟩
  else .error (.invalidHost hostHere)

/-- The loop over the addresses. -/
def machines (user : Option (List Char)) : List (List Char) → Except ByonFailure (List Machine)
  | [] => .ok []
  | host :: hostAddresses =>
      match machine resolvable user host with
      | .error failure => .error failure
      | .ok first => (machines user hostAddresses).map (first :: ·)

variable {Other : Type}

def located (rounds : Nat) (argsMap : KeyValueParser.Parts) (locationFlags : LocationFlags Other) :
    Option (Except ByonFailure (ByonLocation Other)) :=
  -- A key without a value is there, and its value is `null`.
  let name := (argsMap.get "name".toList).getD locationFlags.name
  let user := (argsMap.get "user".toList).getD locationFlags.user
  let illegalArgs := argsMap.keys.elements.filter fun key => key ∉ acceptableArgs
  if illegalArgs ≠ [] then some (.error (.illegalArgs illegalArgs))
  else
    match (argsMap.get "hosts".toList).join with
    | none => some (.error .noHost)
    | some [] => some (.error .noHost)
    | some hosts =>
        if (argsMap.get "name".toList).isSome ∧ name.getD [] = [] then some (.error .emptyName)
        else
          match WildcardGlobs.getGlobsAfterBraceExpansionFor .notASpecialChar .notASpecialChar true
              rounds ('{' :: (hosts ++ ['}'])) with
          | none => none
          | some (.error failure) => some (.error (.expansion failure))
          | some (.ok hostAddresses) =>
              some ((machines resolvable user hostAddresses).map fun machines =>
                ⟨machines, ⟨name.or locationFlags.name, user.or locationFlags.user,
                  locationFlags.others⟩⟩)

def newLocationFromString (rounds : Nat) (spec : List Char) (locationFlags : LocationFlags Other) :
    Option (Except ByonFailure (ByonLocation Other)) :=
  match argsPart spec with
  | none => some (.error .invalidLocation)
  | some args => located resolvable rounds (KeyValueParser.parseMap args) locationFlags

end Machines

section Arguments
open KeyValueParser

theorem argsPart_spec {args : List Char} (one_line : ∀ c ∈ args, isLineTerminator c = false) :
    argsPart ("byon:(".toList ++ (args ++ [')'])) = some args := by
  have inside : ("byon:(".toList ++ (args ++ [')'])).drop 6 = args ++ [')'] := rfl
  have all : args.all (fun c => !isLineTerminator c) = true :=
    List.all_eq_true.mpr fun c member => by rw [one_line c member]; rfl
  rw [argsPart, inside, List.dropLast_concat, if_pos]
  exact ⟨List.mem_cons_self, rfl, List.getLast?_concat, all⟩

theorem parseTokens_joined {segments : List (List Char)}
    (all : ∀ text ∈ segments, Segment defaultQuoteChars [','] text) (result : Parts) :
    parseTokens (atJoined defaultQuoteChars [','] ',' segments) result =
      result.putAll (segments.map fun text => parseToken (trim text)) :=
  parseTokens_listed rfl
    (fun _ _ later =>
      nextToken_joined no_backslash_quotes comma_apart (List.mem_singleton_self ',') later)
    all result

/-- The entries between the commas of a line. -/
theorem parseMap_joined {segments : List (List Char)}
    (all : ∀ text ∈ segments, Segment defaultQuoteChars [','] text) :
    parseMap ([','].intercalate segments) =
      LinkedMap.empty.putAll (segments.map fun text => parseToken (trim text)) := by
  rw [parseMap, create_joined no_backslash_quotes comma_apart (List.mem_singleton_self ',') all,
    parseTokens_joined all]

/-- Characters that the tokenizer leaves alone. -/
def Unquoted (text : List Char) : Prop :=
  ∀ c ∈ text, c ≠ ',' ∧ c ≠ '\\' ∧ c ∉ defaultQuoteChars

theorem guarded_unquoted {text : List Char} (unquoted : Unquoted text) (rest : List Char) :
    (Guarded defaultQuoteChars [','] .start (text ++ rest) ↔
      Guarded defaultQuoteChars [','] .start rest) ∧
    Reading.start.readAll defaultQuoteChars (text ++ rest) =
      Reading.start.readAll defaultQuoteChars rest := by
  induction text with
  | nil => exact ⟨Iff.rfl, rfl⟩
  | cons c text ih =>
    obtain ⟨plain, others⟩ := List.forall_mem_cons.mp unquoted
    obtain ⟨guarded, read⟩ := guarded_plain plain (text ++ rest)
    obtain ⟨guarded_rest, read_rest⟩ := ih others
    exact ⟨guarded.trans guarded_rest, read.trans read_rest⟩

theorem segment_unquoted {text : List Char} (nonempty : text ≠ []) (unquoted : Unquoted text) :
    Segment defaultQuoteChars [','] text := by
  obtain ⟨c, rest, rfl⟩ := List.exists_cons_of_ne_nil nonempty
  obtain ⟨guarded, read⟩ := guarded_unquoted unquoted []
  rw [List.append_nil] at guarded read
  refine ⟨⟨c, rfl, ?_⟩, guarded.mpr trivial, by rw [read]; rfl⟩
  exact fun comma => (unquoted c List.mem_cons_self).1 (List.mem_singleton.mp comma)

/-- Characters that are not escaped in quotes. -/
def Unescaped (text : List Char) : Prop := ∀ c ∈ text, c ≠ '\\' ∧ c ∉ defaultQuoteChars

theorem Unquoted.unescaped {text : List Char} (unquoted : Unquoted text) : Unescaped text :=
  fun c member => (unquoted c member).2

theorem matchQuotes_unescaped {text : List Char} (plain : Unescaped text) :
    matchQuotes defaultQuoteChars text = none := by
  cases text with
  | nil => rfl
  | cons c text =>
    obtain ⟨no_backslash, no_quote⟩ := plain c List.mem_cons_self
    exact matchQuotes_of_not_quote no_quote fun rest same => no_backslash (List.cons.inj same).1

theorem unquote_unescaped {text : List Char} (plain : Unescaped text) : unquote text = text := by
  have after : removeQuotesAfter defaultQuoteChars text = text := by
    induction text with
    | nil => rw [removeQuotesAfter]
    | cons c text ih =>
      obtain ⟨-, others⟩ := List.forall_mem_cons.mp plain
      have unmatched : matchQuotes ('"' :: ['\'']) text = none := matchQuotes_unescaped others
      rw [defaultQuoteChars, removeQuotesAfter_unmatched unmatched, ← defaultQuoteChars, ih others]
  have unescaped : unescape defaultQuoteChars text = text := by
    clear after
    induction text with
    | nil => rfl
    | cons c text ih =>
      obtain ⟨⟨no_backslash, -⟩, others⟩ := List.forall_mem_cons.mp plain
      rw [unescape, ih others]
      exact fun d rest same => absurd same no_backslash
  rw [unquote, unquoteToken, removeQuotes, matchQuotes_unescaped plain]
  dsimp only
  rw [after, unescaped]

theorem quote_unescaped {text : List Char} (plain : Unescaped text) :
    quote text = '"' :: (text ++ ['"']) := by
  have escaped : escape defaultQuoteChars text = text := by
    induction text with
    | nil => rfl
    | cons c text ih =>
      obtain ⟨⟨no_backslash, no_quote⟩, others⟩ := List.forall_mem_cons.mp plain
      have no_escape : ¬ (c = '\\' ∨ c ∈ '"' :: ['\'']) := not_or.mpr ⟨no_backslash, no_quote⟩
      rw [defaultQuoteChars, escape_plain no_escape, ← defaultQuoteChars, ih others]
  show '"' :: (escape defaultQuoteChars text ++ ['"']) = _
  rw [escaped]

theorem parseToken_hosts {value : List Char} (nonempty : value ≠ []) :
    parseToken ("hosts=".toList ++ value) = ("hosts".toList, some (unquote (trim value))) := by
  obtain ⟨c, rest, rfl⟩ := List.exists_cons_of_ne_nil nonempty
  have key : unquote (trim "hosts".toList) = "hosts".toList := by
    rw [Visible.trim (by simp [Visible]), unquote_unescaped]
    simp [Unescaped, defaultQuoteChars]
  have before : ("hosts=".toList ++ c :: rest).takeWhile (· ≠ '=') = "hosts".toList := rfl
  have behind : ("hosts=".toList ++ c :: rest).dropWhile (· ≠ '=') = '=' :: c :: rest := rfl
  rw [parseToken, before, behind]
  dsimp only
  rw [key]

end Arguments

section Hosts
open WildcardGlobs

/-- Characters that neither separate alternatives nor enclose them. -/
def Unbraced (text : List Char) : Prop := ∀ c ∈ text, c ≠ ',' ∧ c ≠ '{' ∧ c ≠ '}'

theorem findTokens_text {text : List Char} (plain : Unbraced text) (rest : List Char)
    (tokens : List (List Char)) :
    ∀ previous braced token, ∃ before already,
      findTokens .notASpecialChar .notASpecialChar [] [] (text ++ rest) previous braced token false
          ['{'] tokens =
        findTokens .notASpecialChar .notASpecialChar [] [] rest before already (token ++ text) false
          ['{'] tokens := by
  induction text with
  | nil => exact fun previous braced token => ⟨previous, braced, by rw [List.append_nil]; rfl⟩
  | cons c text ih =>
    intro previous braced token
    obtain ⟨⟨no_comma, no_open, no_close⟩, others⟩ := List.forall_mem_cons.mp plain
    obtain ⟨before, already, same⟩ := ih others (some c) (braced ++ [c]) (token ++ [c])
    refine ⟨before, already, ?_⟩
    have outside : phrase .notASpecialChar .notASpecialChar previous c false ['{'] = .outside := by
      simp [phrase, inParen, opening]
    rw [List.cons_append, findTokens, outside]
    dsimp only
    rw [if_neg no_close, if_neg fun both => no_comma both.1, if_neg no_open, same,
      List.append_assoc]
    rfl

/-- The alternatives are what stands between the commas. -/
theorem findTokens_joined (parts : List (List Char)) :
    ∀ first tokens previous braced, Unbraced first → (∀ part ∈ parts, Unbraced part) →
      findTokens .notASpecialChar .notASpecialChar [] []
          (first ++ (parts.flatMap (',' :: ·) ++ ['}'])) previous braced [] false ['{'] tokens =
        .ok (tokens ++ first :: parts, []) := by
  induction parts with
  | nil =>
    intro first tokens previous braced plain _
    obtain ⟨before, already, same⟩ := findTokens_text plain ['}'] tokens previous braced []
    rw [List.flatMap_nil, List.nil_append, same]
    rfl
  | cons part parts ih =>
    intro first tokens previous braced plain all
    obtain ⟨plain_part, others⟩ := List.forall_mem_cons.mp all
    obtain ⟨before, already, same⟩ := findTokens_text plain
      (',' :: (part ++ (parts.flatMap (',' :: ·) ++ ['}']))) tokens previous braced []
    have line : first ++ ((part :: parts).flatMap (',' :: ·) ++ ['}']) =
        first ++ ',' :: (part ++ (parts.flatMap (',' :: ·) ++ ['}'])) := by simp
    have outside : phrase .notASpecialChar .notASpecialChar before ',' false ['{'] = .outside := rfl
    -- At the comma the token is kept and the next one begins.
    rw [line, same, findTokens, outside]
    dsimp only
    rw [if_neg (by decide), if_pos ⟨rfl, rfl⟩, List.nil_append,
      ih part (tokens ++ [first]) _ _ plain_part others]
    simp

theorem scan_text {text : List Char} (plain : Unbraced text) :
    ∀ previous resultSoFar,
      scan .notASpecialChar .notASpecialChar text previous resultSoFar false [] =
        .ok (.glob (resultSoFar ++ text)) := by
  induction text with
  | nil =>
    intro previous resultSoFar
    rw [List.append_nil]
    rfl
  | cons c text ih =>
    intro previous resultSoFar
    obtain ⟨⟨-, no_open, -⟩, others⟩ := List.forall_mem_cons.mp plain
    have outside : phrase .notASpecialChar .notASpecialChar previous c false [] = .outside := by
      simp [phrase, inParen, opening]
    rw [scan, outside]
    dsimp only
    rw [if_pos no_open, ih others, List.append_assoc]
    rfl

theorem expandTokens_names {parts : List (List Char)}
    (names : ∀ part ∈ parts, isNumericRange part = false) (rounds : Nat) :
    expandTokens true rounds parts = some (.ok parts) := by
  induction parts with
  | nil => rfl
  | cons part parts ih =>
    obtain ⟨name, others⟩ := List.forall_mem_cons.mp names
    rw [expandTokens, expandToken, name, Bool.and_false, ih others]
    rfl

theorem names_settle {parts : List (List Char)} (plain : ∀ part ∈ parts, Unbraced part)
    (result : List (List Char)) :
    Settles (fun rounds => expandAllFor .notASpecialChar .notASpecialChar true rounds
      (choose [] [] [] parts) result) (.ok (result ++ parts)) := by
  induction parts generalizing result with
  | nil =>
    rw [List.append_nil]
    exact .of_succ rfl (.of_always fun _ => rfl)
  | cons part parts ih =>
    obtain ⟨plain_part, others⟩ := List.forall_mem_cons.mp plain
    have glob : scanExpression .notASpecialChar .notASpecialChar ⟨[], part ++ [], []⟩ =
        .ok (.glob part) := by
      rw [List.append_nil]
      exact scan_text plain_part none []
    have later := ih others (result ++ [part])
    rw [List.append_assoc] at later
    refine .of_succ rfl ?_
    have round (rounds : Nat) :
        expandAllFor .notASpecialChar .notASpecialChar true (rounds + 1)
            (choose [] [] [] (part :: parts)) result =
          expandAllFor .notASpecialChar .notASpecialChar true rounds (choose [] [] [] parts)
            (result ++ [part]) := expandAllFor_glob rounds glob
    simp only [round]
    exact later

/-- Names with commas between them are expanded to the names. -/
theorem globs_settle {first : List Char} {parts : List (List Char)}
    (plain : ∀ part ∈ first :: parts, Unbraced part)
    (names : ∀ part ∈ first :: parts, isNumericRange part = false) :
    Settles (fun rounds => getGlobsAfterBraceExpansionFor .notASpecialChar .notASpecialChar true
      rounds ('{' :: ([','].intercalate (first :: parts) ++ ['}']))) (.ok (first :: parts)) := by
  obtain ⟨plain_first, others⟩ := List.forall_mem_cons.mp plain
  have found := findTokens_joined parts first [] (some '{') ['{'] plain_first others
  have joined : [','].intercalate (first :: parts) ++ ['}'] =
      first ++ (parts.flatMap (',' :: ·) ++ ['}']) := by
    rw [intercalate_cons_flatMap, List.append_assoc]
    rfl
  have scanned : scanExpression .notASpecialChar .notASpecialChar
      ⟨[], '{' :: ([','].intercalate (first :: parts) ++ ['}']), []⟩ =
        .ok (.choice [] (first :: parts) [] []) := by
    have outside : phrase .notASpecialChar .notASpecialChar none '{' false [] = .outside := rfl
    show scan _ _ ('{' :: _) none [] false [] = _
    rw [scan, outside]
    dsimp only
    rw [if_neg (by decide), List.nil_append, joined, found]
    rfl
  have round (rounds : Nat) :
      getGlobsAfterBraceExpansionFor .notASpecialChar .notASpecialChar true (rounds + 1)
          ('{' :: ([','].intercalate (first :: parts) ++ ['}'])) =
        expandAllFor .notASpecialChar .notASpecialChar true rounds
          (choose [] [] [] (first :: parts)) [] := by
    rw [getGlobsAfterBraceExpansionFor, expandAllFor_choice rounds scanned,
      expandTokens_names names, Option.bind_some, chosen, List.append_nil]
  refine .of_succ rfl ?_
  simp only [round]
  exact names_settle plain []

end Hosts

section Specs
open KeyValueParser

/-- The characters that mean something in a spec: to the pattern, to the reader of the arguments,
to the expansion of the hosts, or between a user and a host. -/
def specialChars : List Char :=
  [',', '=', '"', '\'', '\\', '(', ')', '{', '}', '@', '\x85', '\u2028', '\u2029']

/-- A name without special characters, and no range of numbers either. -/
structure PlainName (host : List Char) : Prop where
  nonempty : host ≠ []
  plain : ∀ c ∈ host, ' ' < c ∧ c ∉ specialChars
  single : WildcardGlobs.isNumericRange host = false

/-- `byon:(hosts=h1,...,hn)` -/
def unquotedSpec (hosts : List (List Char)) : List Char :=
  "byon:(hosts=".toList ++ [','].intercalate hosts ++ [')']

/-- `byon:(hosts="h1,...,hn")` -/
def quotedSpec (hosts : List (List Char)) : List Char :=
  "byon:(hosts=\"".toList ++ [','].intercalate hosts ++ ['"', ')']

variable {hosts : List (List Char)} {host : List Char}

theorem PlainName.unbraced (name : PlainName host) : Unbraced host := by
  intro c member
  obtain ⟨-, plain⟩ := name.plain c member
  simp only [specialChars, List.mem_cons, not_or] at plain
  tauto

theorem PlainName.unquoted (name : PlainName host) : Unquoted host := by
  intro c member
  obtain ⟨-, plain⟩ := name.plain c member
  simp only [specialChars, List.mem_cons, not_or] at plain
  refine ⟨plain.1, plain.2.2.2.2.1, ?_⟩
  simp only [defaultQuoteChars, List.mem_cons, not_or]
  tauto

theorem PlainName.visible (name : PlainName host) : Visible host := fun c member =>
  (name.plain c member).1

theorem PlainName.not_mem (name : PlainName host) {c : Char} (special : c ∈ specialChars) :
    c ∉ host := fun member => (name.plain c member).2 special

theorem PlainName.one_line (name : PlainName host) {c : Char} (member : c ∈ host) :
    isLineTerminator c = false := by
  obtain ⟨visible, plain⟩ := name.plain c member
  refine Bool.eq_false_iff.mpr fun terminates => ?_
  have among : c ∈ ['\n', '\r', '\x85', '\u2028', '\u2029'] := List.contains_iff_mem.mp terminates
  simp only [List.mem_cons, List.not_mem_nil, or_false] at among
  rcases among with rfl | rfl | rfl | rfl | rfl
  · exact absurd visible (by decide)
  · exact absurd visible (by decide)
  all_goals exact plain (by decide)

/-- What holds of a comma and of the characters of the hosts. -/
theorem forall_joined {p : Char → Prop} (comma : p ',') (inside : ∀ host ∈ hosts, ∀ c ∈ host, p c) :
    ∀ c ∈ [','].intercalate hosts, p c := by
  cases hosts with
  | nil => exact fun c member => absurd member List.not_mem_nil
  | cons first rest =>
    obtain ⟨in_first, in_rest⟩ := List.forall_mem_cons.mp inside
    rw [intercalate_cons_flatMap]
    refine List.forall_mem_append.mpr ⟨in_first, fun c member => ?_⟩
    obtain ⟨host, listed, there⟩ := List.mem_flatMap.mp member
    rcases List.mem_cons.mp there with rfl | in_host
    · exact comma
    · exact in_rest host listed c in_host

theorem unescaped_joined (names : ∀ host ∈ hosts, PlainName host) :
    Unescaped ([','].intercalate hosts) :=
  forall_joined (by simp [defaultQuoteChars]) fun host member =>
    (names host member).unquoted.unescaped

theorem one_line_joined (names : ∀ host ∈ hosts, PlainName host) :
    ∀ c ∈ [','].intercalate hosts, isLineTerminator c = false :=
  forall_joined rfl fun host member _ => (names host member).one_line

theorem visible_joined (names : ∀ host ∈ hosts, PlainName host) :
    Visible ([','].intercalate hosts) :=
  forall_joined (by decide) fun host member => (names host member).visible

theorem one_line_hosts : ∀ c ∈ "hosts=".toList, isLineTerminator c = false := by
  simp [isLineTerminator]

theorem spec_args (text rest : List Char) :
    "byon:(hosts=".toList ++ text ++ rest =
      "byon:(".toList ++ ("hosts=".toList ++ text ++ rest) := by
  simp

theorem unquotedSpec_args (hosts : List (List Char)) : unquotedSpec hosts =
    "byon:(".toList ++ ("hosts=".toList ++ [','].intercalate hosts ++ [')']) :=
  spec_args _ _

theorem spec_quoted (text : List Char) :
    "byon:(hosts=\"".toList ++ text ++ ['"', ')'] =
      "byon:(".toList ++ ("hosts=".toList ++ '"' :: (text ++ ['"']) ++ [')']) := by
  simp

theorem quotedSpec_args (names : ∀ host ∈ hosts, PlainName host) : quotedSpec hosts =
    "byon:(".toList ++ ("hosts=".toList ++ quote ([','].intercalate hosts) ++ [')']) := by
  rw [quote_unescaped (unescaped_joined names)]
  exact spec_quoted _

theorem argsPart_unquoted (names : ∀ host ∈ hosts, PlainName host) :
    argsPart (unquotedSpec hosts) = some ("hosts=".toList ++ [','].intercalate hosts) :=
  (congrArg argsPart (unquotedSpec_args hosts)).trans
    (argsPart_spec (List.forall_mem_append.mpr ⟨one_line_hosts, one_line_joined names⟩))

theorem argsPart_quoted (names : ∀ host ∈ hosts, PlainName host) :
    argsPart (quotedSpec hosts) = some ("hosts=".toList ++ quote ([','].intercalate hosts)) := by
  have one_line_quoted : ∀ c ∈ quote ([','].intercalate hosts), isLineTerminator c = false := by
    rw [quote_unescaped (unescaped_joined names)]
    exact List.forall_mem_cons.mpr ⟨rfl, List.forall_mem_append.mpr
      ⟨one_line_joined names, List.forall_mem_singleton.mpr rfl⟩⟩
  exact (congrArg argsPart (quotedSpec_args names)).trans
    (argsPart_spec (List.forall_mem_append.mpr ⟨one_line_hosts, one_line_quoted⟩))

theorem unquoted_hosts : Unquoted "hosts=".toList := by simp [Unquoted, defaultQuoteChars]

theorem visible_hosts : Visible "hosts=".toList := by simp [Visible]

theorem PlainName.parseToken (name : PlainName host) :
    KeyValueParser.parseToken (trim host) = (host, none) := by
  have no_equals : host.dropWhile (· ≠ '=') = [] :=
    List.dropWhile_eq_nil_iff.mpr fun c member =>
      decide_eq_true fun equals => name.not_mem (by simp [specialChars]) (equals ▸ member)
  rw [name.visible.trim, KeyValueParser.parseToken, no_equals]
  dsimp only
  rw [unquote_unescaped name.unquoted.unescaped]

theorem PlainName.parseToken_hosts (name : PlainName host) :
    KeyValueParser.parseToken (trim ("hosts=".toList ++ host)) = ("hosts".toList, some host) := by
  rw [(visible_hosts.append name.visible).trim,
    ByonLocationResolver.parseToken_hosts name.nonempty, name.visible.trim,
    unquote_unescaped name.unquoted.unescaped]

/-- A comma between hosts ends the argument. -/
theorem parseMap_unquoted {first : List Char} {rest : List (List Char)}
    (names : ∀ host ∈ first :: rest, PlainName host) :
    parseMap ("hosts=".toList ++ [','].intercalate (first :: rest)) =
      LinkedMap.empty.putAll
        (("hosts".toList, some first) :: rest.map fun host => (host, none)) := by
  obtain ⟨name, others⟩ := List.forall_mem_cons.mp names
  have line : "hosts=".toList ++ [','].intercalate (first :: rest) =
      [','].intercalate (("hosts=".toList ++ first) :: rest) := by
    rw [intercalate_cons_flatMap, intercalate_cons_flatMap, List.append_assoc]
  have segments : ∀ text ∈ ("hosts=".toList ++ first) :: rest,
      Segment defaultQuoteChars [','] text := by
    refine List.forall_mem_cons.mpr ⟨?_, fun host member => ?_⟩
    · exact segment_unquoted (List.append_ne_nil_of_right_ne_nil _ name.nonempty)
        (List.forall_mem_append.mpr ⟨unquoted_hosts, name.unquoted⟩)
    · exact segment_unquoted (others host member).nonempty (others host member).unquoted
  rw [line, parseMap_joined segments, List.map_cons, name.parseToken_hosts]
  exact congrArg (fun entries => LinkedMap.empty.putAll (_ :: entries))
    (List.map_congr_left fun host member => (others host member).parseToken)

theorem Unescaped.not_keepsQuote {text : List Char} (plain : Unescaped text) :
    ¬ KeepsQuote text := by
  rintro ⟨nonempty, only⟩
  obtain ⟨c, rest, rfl⟩ := List.exists_cons_of_ne_nil nonempty
  exact (plain c List.mem_cons_self).1 (only c List.mem_cons_self)

/-- In quotes it does not. -/
theorem parseMap_quoted (names : ∀ host ∈ hosts, PlainName host) :
    parseMap ("hosts=".toList ++ quote ([','].intercalate hosts)) =
      LinkedMap.empty.put "hosts".toList (some ([','].intercalate hosts)) := by
  obtain ⟨guarded, after⟩ : Guarded defaultQuoteChars [','] .start (quote ([','].intercalate hosts)) ∧
      Reading.start.readAll defaultQuoteChars (quote ([','].intercalate hosts)) = .start :=
    guarded_quoteToken no_backslash_quotes comma_apart _
  obtain ⟨guarded_hosts, after_hosts⟩ := guarded_unquoted unquoted_hosts
    (quote ([','].intercalate hosts))
  have segment : Segment defaultQuoteChars [',']
      ("hosts=".toList ++ quote ([','].intercalate hosts)) :=
    ⟨⟨'h', by simp, by decide⟩, guarded_hosts.mpr guarded, by rw [after_hosts, after]; rfl⟩
  have visible : Visible (quote ([','].intercalate hosts)) := by
    rw [quote_unescaped (unescaped_joined names)]
    exact List.forall_mem_cons.mpr ⟨by decide, List.forall_mem_append.mpr
      ⟨visible_joined names, List.forall_mem_singleton.mpr (by decide)⟩⟩
  have value : quote ([','].intercalate hosts) ≠ [] := List.cons_ne_nil _ _
  have read := parseMap_joined (List.forall_mem_singleton.mpr segment)
  rw [List.intercalate_singleton, List.map_singleton, (visible_hosts.append visible).trim, parseToken_hosts value,
    visible.trim, unquote_quote_of_not (unescaped_joined names).not_keepsQuote] at read
  exact read

end Specs

section Locations
open KeyValueParser

variable (resolvable : List Char → Bool) {Other : Type} {flags : LocationFlags Other}
  {location : ByonLocation Other} {host : List Char} {hosts : List (List Char)}

theorem machine_plain (name : PlainName host) (resolved : resolvable host = true)
    (user : Option (List Char)) :
    ∃ first, machine resolvable user host = .ok first ∧ first.address = host := by
  have no_at : '@' ∉ host := name.not_mem (by simp [specialChars])
  rw [machine, if_neg no_at, if_neg no_at, if_pos resolved, name.visible.trim]
  split
  · exact ⟨_, rfl, rfl⟩
  · exact ⟨_, rfl, rfl⟩

theorem machines_plain (user : Option (List Char))
    (names : ∀ host ∈ hosts, PlainName host ∧ resolvable host = true) :
    ∃ found, machines resolvable user hosts = .ok found ∧ found.map Machine.address = hosts := by
  induction hosts with
  | nil => exact ⟨[], rfl, rfl⟩
  | cons host hosts ih =>
    obtain ⟨⟨name, resolved⟩, others⟩ := List.forall_mem_cons.mp names
    obtain ⟨first, made, address⟩ := machine_plain resolvable name resolved user
    obtain ⟨found, later, addresses⟩ := ih others
    refine ⟨first :: found, ?_, by rw [List.map_cons, address, addresses]⟩
    rw [machines, made]
    dsimp only
    rw [later]
    rfl

/-- What an accepted spec was expanded to. -/
theorem located_ok {rounds : Nat} {argsMap : Parts}
    (accepted : located resolvable rounds argsMap flags = some (.ok location)) :
    ∃ text hostAddresses, argsMap.get "hosts".toList = some (some text) ∧
      WildcardGlobs.getGlobsAfterBraceExpansionFor .notASpecialChar .notASpecialChar true rounds
        ('{' :: (text ++ ['}'])) = some (.ok hostAddresses) ∧
      machines resolvable ((argsMap.get "user".toList).getD flags.user) hostAddresses =
        .ok location.machines := by
  rw [located] at accepted
  split at accepted
  · cases accepted
  · split at accepted
    · cases accepted
    · cases accepted
    · next text _ hosts =>
      split at accepted
      · cases accepted
      · split at accepted
        · cases accepted
        · cases accepted
        · next hostAddresses expanded =>
          cases made : machines resolvable ((argsMap.get "user".toList).getD flags.user)
              hostAddresses with
          | error failure =>
            rw [made] at accepted
            cases accepted
          | ok found =>
            rw [made] at accepted
            cases accepted
            exact ⟨text, hostAddresses, Option.join_eq_some_iff.mp hosts, expanded, made⟩

theorem joined_ne_nil {first : List Char} {rest : List (List Char)}
    (names : ∀ host ∈ first :: rest, PlainName host ∧ resolvable host = true) :
    [','].intercalate (first :: rest) ≠ [] := by
  rw [intercalate_cons_flatMap]
  exact List.append_ne_nil_of_left_ne_nil (names first List.mem_cons_self).1.nonempty _

/-- What is made of the expanded hosts where no other argument is given. -/
def ofExpansion (flags : LocationFlags Other) :
    Except WildcardGlobs.ExpansionFailure (List (List Char)) → Except ByonFailure (ByonLocation Other)
  | .error failure => .error (.expansion failure)
  | .ok hostAddresses => (machines resolvable flags.user hostAddresses).map fun machines =>
      ⟨machines, ⟨flags.name.or flags.name, flags.user.or flags.user, flags.others⟩⟩

theorem located_only_hosts {text : List Char} (nonempty : text ≠ []) (rounds : Nat) :
    located resolvable rounds (LinkedMap.empty.put "hosts".toList (some text)) flags =
      (WildcardGlobs.getGlobsAfterBraceExpansionFor .notASpecialChar .notASpecialChar true rounds
        ('{' :: (text ++ ['}']))).map (ofExpansion resolvable flags) := by
  have legal : (LinkedMap.empty.put "hosts".toList (some text)).keys.elements.filter
      (fun key => key ∉ acceptableArgs) = [] :=
    List.filter_eq_nil_iff.mpr (List.forall_mem_singleton.mpr (by simp [acceptableArgs]))
  have no_name : (LinkedMap.empty.put "hosts".toList (some text)).get "name".toList = none :=
    (LinkedMap.get_put _ _ _ _).trans (if_neg (by simp))
  have no_user : (LinkedMap.empty.put "hosts".toList (some text)).get "user".toList = none :=
    (LinkedMap.get_put _ _ _ _).trans (if_neg (by simp))
  have found : (LinkedMap.empty.put "hosts".toList (some text)).get "hosts".toList =
      some (some text) := (LinkedMap.get_put _ _ _ _).trans (if_pos rfl)
  obtain ⟨c, rest, rfl⟩ := List.exists_cons_of_ne_nil nonempty
  rw [located, legal, no_name, no_user, found, if_neg (not_not_intro rfl), Option.join_some]
  dsimp only [Option.getD, Option.isSome]
  rw [if_neg fun both => Bool.noConfusion both.1]
  cases WildcardGlobs.getGlobsAfterBraceExpansionFor .notASpecialChar .notASpecialChar true rounds
      ('{' :: (c :: rest ++ ['}'])) with
  | none => rfl
  | some expanded => cases expanded <;> rfl

theorem located_hosts (flags : LocationFlags Other) (nonempty : hosts ≠ [])
    (names : ∀ host ∈ hosts, PlainName host ∧ resolvable host = true) :
    ∃ location : ByonLocation Other, location.machines.map Machine.address = hosts ∧
      Settles (fun rounds => located resolvable rounds
        (LinkedMap.empty.put "hosts".toList (some ([','].intercalate hosts))) flags)
        (.ok location) := by
  obtain ⟨found, made, addresses⟩ := machines_plain resolvable flags.user names
  obtain ⟨first, rest, rfl⟩ := List.exists_cons_of_ne_nil nonempty
  have globs := (globs_settle (fun host member => (names host member).1.unbraced)
    fun host member => (names host member).1.single).map (ofExpansion resolvable flags)
  rw [ofExpansion, made] at globs
  refine ⟨⟨found, ⟨flags.name.or flags.name, flags.user.or flags.user, flags.others⟩⟩, addresses, ?_⟩
  simp only [located_only_hosts resolvable (joined_ne_nil resolvable names)]
  exact globs

theorem quoted_settles (flags : LocationFlags Other) (nonempty : hosts ≠ [])
    (names : ∀ host ∈ hosts, PlainName host ∧ resolvable host = true) :
    ∃ location : ByonLocation Other, location.machines.map Machine.address = hosts ∧
      Settles (fun rounds => newLocationFromString resolvable rounds (quotedSpec hosts) flags)
        (.ok location) := by
  obtain ⟨location, addresses, settles⟩ := located_hosts resolvable flags nonempty names
  refine ⟨location, addresses, ?_⟩
  have plain : ∀ host ∈ hosts, PlainName host := fun host member => (names host member).1
  simp only [newLocationFromString, argsPart_quoted plain, parseMap_quoted plain]
  exact settles

/-- Without quotes, only the first host can be among the hosts. -/
theorem unquoted_machines {rounds : Nat} {first : List Char} {rest : List (List Char)}
    (names : ∀ host ∈ first :: rest, PlainName host ∧ resolvable host = true)
    (accepted : newLocationFromString resolvable rounds (unquotedSpec (first :: rest)) flags =
      some (.ok location)) :
    location.machines.map Machine.address = [first] := by
  have plain : ∀ host ∈ first :: rest, PlainName host := fun host member => (names host member).1
  have name := plain first List.mem_cons_self
  rw [newLocationFromString, argsPart_unquoted plain] at accepted
  dsimp only at accepted
  rw [parseMap_unquoted plain] at accepted
  obtain ⟨text, hostAddresses, found, expanded, made⟩ := located_ok resolvable accepted
  -- Of the keys only the first has a value.
  have text_first : text = first := by
    rcases LinkedMap.mem_of_get_putAll found with entry | nothing
    · rcases List.mem_cons.mp entry with same | other
      · cases same
        rfl
      · obtain ⟨host, -, no_value⟩ := List.mem_map.mp other
        cases no_value
    · cases nothing
  have globs := globs_settle (List.forall_mem_singleton.mpr name.unbraced)
    (List.forall_mem_singleton.mpr name.single)
  rw [List.intercalate_singleton, ← text_first] at globs
  have only_first := globs.only rounds _ expanded
  obtain ⟨machines, made_first, addresses⟩ := machines_plain resolvable _
    (List.forall_mem_singleton.mpr (names first List.mem_cons_self))
  rw [Except.ok.inj only_first, text_first, made_first] at made
  rw [← Except.ok.inj made, addresses]

/-- Both specs are accepted, with the same machines. -/
def SpecsAgree (flags : LocationFlags Other) (hosts : List (List Char)) : Prop :=
  ∃ location other,
    Settles (fun rounds => newLocationFromString resolvable rounds (unquotedSpec hosts) flags)
      (.ok location) ∧
    Settles (fun rounds => newLocationFromString resolvable rounds (quotedSpec hosts) flags)
      (.ok other) ∧
    location.machines = other.machines

theorem length_of_agree (nonempty : hosts ≠ [])
    (names : ∀ host ∈ hosts, PlainName host ∧ resolvable host = true)
    (agree : SpecsAgree resolvable flags hosts) : hosts.length = 1 := by
  obtain ⟨location, other, unquoted, quoted, same⟩ := agree
  obtain ⟨expected, addresses, settles⟩ := quoted_settles resolvable flags nonempty names
  obtain ⟨first, rest, rfl⟩ := List.exists_cons_of_ne_nil nonempty
  obtain ⟨rounds, accepted⟩ := unquoted.returns
  obtain ⟨more, returned⟩ := quoted.returns
  have machines := unquoted_machines resolvable names accepted
  rw [same, Except.ok.inj (settles.only more _ returned), addresses] at machines
  rw [machines]
  rfl

theorem specs_agree_iff (resolvable : List Char → Bool) (flags : LocationFlags Other)
    (nonempty : hosts ≠ []) (names : ∀ host ∈ hosts, PlainName host ∧ resolvable host = true) :
    SpecsAgree resolvable flags hosts ↔ hosts.length = 1 := by
  refine ⟨length_of_agree resolvable nonempty names, fun one => ?_⟩
  obtain ⟨host, rfl⟩ := List.length_eq_one_iff.mp one
  have plain : ∀ name ∈ [host], PlainName name := fun name member => (names name member).1
  obtain ⟨location, -, settles⟩ := quoted_settles resolvable flags nonempty names
  -- There is no comma, so both specs give the same arguments.
  refine ⟨location, location, ?_, settles, rfl⟩
  simp only [newLocationFromString, argsPart_quoted plain, parseMap_quoted plain] at settles
  simp only [newLocationFromString, argsPart_unquoted plain, parseMap_unquoted plain]
  rw [List.intercalate_singleton] at settles
  exact settles

theorem plain_myhost : PlainName "myhost".toList where
  nonempty := by simp
  plain := by simp [specialChars]
  single := rfl

theorem plain_myhost2 : PlainName "myhost2".toList where
  nonempty := by simp
  plain := by simp [specialChars]
  single := rfl

theorem specs_agree_myhost :
    SpecsAgree (fun host => host == "myhost".toList) ⟨none, none, ()⟩ ["myhost".toList] :=
  (specs_agree_iff (fun host => host == "myhost".toList) _ (List.cons_ne_nil _ _)
    (List.forall_mem_singleton.mpr ⟨plain_myhost, beq_self_eq_true _⟩)).mpr rfl

/-- Hosts of a network with two of them. -/
def twoHosts : List (List Char) := ["myhost".toList, "myhost2".toList]

theorem two_hosts_disagree :
    twoHosts ≠ [] ∧ (∀ host ∈ twoHosts, PlainName host ∧ twoHosts.contains host = true) ∧
    (∀ rounds, newLocationFromString twoHosts.contains rounds (unquotedSpec twoHosts)
      ⟨none, none, ()⟩ = some (.error (.illegalArgs ["myhost2".toList]))) ∧
    ¬ SpecsAgree twoHosts.contains ⟨none, none, ()⟩ twoHosts := by
  have nonempty : twoHosts ≠ [] := List.cons_ne_nil _ _
  have plain : ∀ host ∈ twoHosts, PlainName host :=
    List.forall_mem_cons.mpr ⟨plain_myhost, List.forall_mem_singleton.mpr plain_myhost2⟩
  have names : ∀ host ∈ twoHosts, PlainName host ∧ twoHosts.contains host = true :=
    fun host member => ⟨plain host member, List.contains_iff_mem.mpr member⟩
  refine ⟨nonempty, names, fun rounds => ?_, fun agree => ?_⟩
  · rw [newLocationFromString, argsPart_unquoted plain]
    dsimp only
    rw [twoHosts, parseMap_unquoted plain, located]
    rfl
  · exact absurd (length_of_agree _ nonempty names agree) (by simp [twoHosts])

end Locations

end Brooklyn.ByonLocationResolver
