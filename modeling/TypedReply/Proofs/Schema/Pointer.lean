import TypedReply.Proofs.Aligned
import TypedReply.Proofs.Value.Objects

/-!
# Pointers into documents

A reference is a JSON pointer in the fragment of a URI. Octets that are escaped by percent signs are
decoded, a slash goes before every token, and in a token `~1` stands for a slash and `~0` for a tilde;
other characters stand for themselves. The tokens lead into a document, from an object to what it has
under a name and from a list to the item at a place. A pointer that is written without escapes is read
as it is meant only if there was nothing to escape.
-/

namespace TypedReply

/-- What a token leads to: what an object has under it as a name, or the item of a list at the place
that it is the number of. -/
def Value.step (value : Value) (token : String) : Option Value :=
  match value with
  | .list items => items.zipIdx.findSome? fun (item, place) =>
      if toString place = token then some item else none
  | value => value.get? token

namespace Pointer

/-! ## Reading -/

/-- The number that a hexadecimal digit stands for. -/
def hexDigit? (digit : Char) : Option Nat :=
  if '0' ≤ digit ∧ digit ≤ '9' then some (digit.toNat - '0'.toNat)
  else if 'A' ≤ digit ∧ digit ≤ 'F' then some (digit.toNat - 'A'.toNat + 10)
  else if 'a' ≤ digit ∧ digit ≤ 'f' then some (digit.toNat - 'a'.toNat + 10)
  else none

/-- The octets of a fragment: those that are escaped, and those of the characters that are not. -/
def octets : List Char → Option (List UInt8)
  | [] => some []
  | char :: rest =>
    if char = '%' then
      match rest with
      | high :: low :: rest => do
        let octet := 16 * (← hexDigit? high) + (← hexDigit? low)
        return UInt8.ofNat octet :: (← octets rest)
      | _ => none
    else (octets rest).map (String.utf8EncodeChar char ++ ·)

/-- The text of a fragment. -/
def decoded (fragment : List Char) : Option (List Char) := do
  let text ← String.fromUTF8? (← octets fragment).toByteArray
  return text.toList

/-- The name that a token stands for. -/
def unescaped : List Char → Option (List Char)
  | [] => some []
  | char :: rest =>
    if char = '~' then
      match rest with
      | '0' :: rest => (unescaped rest).map ('~' :: ·)
      | '1' :: rest => (unescaped rest).map ('/' :: ·)
      | _ => none
    else (unescaped rest).map (char :: ·)

/-- The names that a pointer goes through; without any it is empty. -/
def names : List Char → Option (List (List Char))
  | [] => some []
  | '/' :: tokens => (tokens.splitOn '/').mapM unescaped
  | _ => none

/-- The names that a reference inside of a document goes through. -/
def read (reference : String) : Option (List String) :=
  match reference.toList with
  | '#' :: fragment => ((decoded fragment).bind names).map (·.map String.ofList)
  | _ => none

/-- The part of a document that a reference leads to. -/
def resolve (document : Value) (reference : String) : Option Value := do
  (← read reference).foldlM Value.step document

/-- A name without characters that a pointer escapes. -/
def IsPlain (name : String) : Prop := ∀ char ∈ ['/', '~', '%'], char ∉ name.toList

instance (name : String) : Decidable (IsPlain name) :=
  List.decidableBAll (fun char => char ∉ name.toList) ['/', '~', '%']

/-! ## The weight of a text -/

def weight (text : List Char) : Nat := (text.flatMap String.utf8EncodeChar).length

@[simp]
theorem weight_cons (char : Char) (text : List Char) :
    weight (char :: text) = char.utf8Size + weight text := by
  simp [weight]

@[simp]
theorem weight_append (text more : List Char) : weight (text ++ more) = weight text + weight more := by
  simp [weight]

theorem octets_cons_of_ne {char : Char} (other : char ≠ '%') (rest : List Char) :
    octets (char :: rest) = (octets rest).map (String.utf8EncodeChar char ++ ·) := by
  rw [octets.eq_def]
  simp only [other, if_false]

theorem octets_of_plain {fragment : List Char} (plain : '%' ∉ fragment) :
    octets fragment = some (fragment.flatMap String.utf8EncodeChar) := by
  induction fragment with
  | nil => rfl
  | cons char rest ih =>
      rw [List.mem_cons, not_or] at plain
      rw [octets_cons_of_ne (Ne.symm plain.1), ih plain.2]
      rfl

theorem length_octets {fragment : List Char} {found : List UInt8}
    (isFound : octets fragment = some found) :
    found.length ≤ weight fragment ∧ ('%' ∈ fragment → found.length < weight fragment) := by
  fun_induction octets fragment generalizing found with
  | case1 =>
      cases isFound
      simp
  | case2 high low rest ih =>
      simp only [Option.bind_eq_bind, Option.bind_eq_some_iff, Option.pure_def, Option.some.injEq]
        at isFound
      obtain ⟨_, -, _, -, others, areOthers, rfl⟩ := isFound
      obtain ⟨bound, -⟩ := ih areOthers
      have := high.utf8Size_pos
      have := low.utf8Size_pos
      have percent : Char.utf8Size '%' = 1 := rfl
      simp only [weight_cons, List.length_cons]
      omega
  | case3 => cases isFound
  | case4 char rest other ih =>
      obtain ⟨others, areOthers, rfl⟩ := Option.map_eq_some_iff.mp isFound
      obtain ⟨bound, strict⟩ := ih areOthers
      rw [List.length_append, String.length_utf8EncodeChar, weight_cons, List.mem_cons]
      refine ⟨by omega, fun isPercent => ?_⟩
      have := strict (isPercent.resolve_left (Ne.symm other))
      omega

theorem fromUTF8?_eq_some_iff {bytes : ByteArray} {text : String} :
    String.fromUTF8? bytes = some text ↔ text.toByteArray = bytes := by
  unfold String.fromUTF8?
  split
  next isValid =>
    rw [Option.some.injEq, ← String.toByteArray_inj]
    exact eq_comm
  next notValid =>
    refine ⟨nofun, ?_⟩
    rintro rfl
    exact (notValid text.isValidUTF8).elim

theorem weight_decoded {fragment text : List Char} (isText : decoded fragment = some text) :
    weight text ≤ weight fragment ∧ ('%' ∈ fragment → weight text < weight fragment) := by
  simp only [decoded, Option.bind_eq_bind, Option.bind_eq_some_iff, Option.pure_def,
    Option.some.injEq] at isText
  obtain ⟨found, areOctets, string, isString, rfl⟩ := isText
  have same : found.length = weight string.toList := by
    have isEncoded := String.utf8Encode_toList.trans (fromUTF8?_eq_some_iff.mp isString)
    rw [weight, List.toByteArray_inj.mp isEncoded]
  rw [← same]
  exact length_octets areOctets

theorem decoded_of_plain {fragment : List Char} (plain : '%' ∉ fragment) :
    decoded fragment = some fragment := by
  have isText : String.fromUTF8? (fragment.flatMap String.utf8EncodeChar).toByteArray =
      some (String.ofList fragment) := fromUTF8?_eq_some_iff.mpr String.toByteArray_ofList
  simp [decoded, octets_of_plain plain, isText]

theorem weight_unescaped {token name : List Char} (isName : unescaped token = some name) :
    weight name ≤ weight token ∧ ('~' ∈ token → weight name < weight token) := by
  have slash : Char.utf8Size '/' = 1 := rfl
  have tilde : Char.utf8Size '~' = 1 := rfl
  fun_induction unescaped token generalizing name with
  | case1 =>
      cases isName
      simp
  | case2 rest ih =>
      obtain ⟨others, areOthers, rfl⟩ := Option.map_eq_some_iff.mp isName
      have bound := (ih areOthers).1
      have := Char.utf8Size_pos '0'
      simp only [weight_cons]
      omega
  | case3 rest ih =>
      obtain ⟨others, areOthers, rfl⟩ := Option.map_eq_some_iff.mp isName
      have bound := (ih areOthers).1
      have := Char.utf8Size_pos '1'
      simp only [weight_cons]
      omega
  | case4 => cases isName
  | case5 char rest other ih =>
      obtain ⟨others, areOthers, rfl⟩ := Option.map_eq_some_iff.mp isName
      obtain ⟨bound, strict⟩ := ih areOthers
      rw [weight_cons, weight_cons, List.mem_cons]
      refine ⟨by omega, fun isTilde => ?_⟩
      have := strict (isTilde.resolve_left (Ne.symm other))
      omega

theorem unescaped_of_plain {token : List Char} (plain : '~' ∉ token) : unescaped token = some token := by
  induction token with
  | nil => rfl
  | cons char rest ih =>
      rw [List.mem_cons, not_or] at plain
      rw [unescaped.eq_def]
      simp [Ne.symm plain.1, ih plain.2]

/-! ## Tokens -/

theorem not_mem_of_mem_splitOn {separator : Char} {text token : List Char}
    (isToken : token ∈ text.splitOn separator) : separator ∉ token := by
  induction text generalizing token with
  | nil =>
      have isEmpty : token ∈ [[]] := isToken
      rw [List.mem_singleton.mp isEmpty]
      exact List.not_mem_nil
  | cons char rest ih =>
      rw [List.splitOn, List.splitOnP_cons_eq_if_modifyHead] at isToken
      split at isToken
      · rcases List.mem_cons.mp isToken with rfl | isLater
        · exact List.not_mem_nil
        · exact ih isLater
      next other =>
        cases isSplit : rest.splitOnP (· == separator) with
        | nil =>
            rw [isSplit] at isToken
            cases isToken
        | cons first later =>
            have among {token : List Char} (isAmong : token ∈ first :: later) : separator ∉ token :=
              ih (isSplit ▸ isAmong : token ∈ rest.splitOnP (· == separator))
            rw [isSplit, List.modifyHead_cons] at isToken
            rcases List.mem_cons.mp isToken with rfl | isLater
            · rw [List.mem_cons, not_or]
              exact ⟨fun same => other (by simp [same]), among List.mem_cons_self⟩
            · exact among (List.mem_cons_of_mem _ isLater)

theorem splitOn_eq_pair_iff {separator : Char} {text first second : List Char} :
    text.splitOn separator = [first, second] ↔
      text = first ++ separator :: second ∧ separator ∉ first ∧ separator ∉ second := by
  constructor
  · intro isSplit
    have joined := @List.intercalate_splitOn _ text _ _ separator
    rw [isSplit] at joined
    have each (token) (isToken : token ∈ [first, second]) :=
      not_mem_of_mem_splitOn (isSplit ▸ isToken : token ∈ text.splitOn separator)
    exact ⟨by simpa using joined.symm, each first (by simp), each second (by simp)⟩
  · rintro ⟨rfl, freeFirst, freeSecond⟩
    have joined := @List.splitOn_intercalate Char [first, second] _ _ separator
      (by simpa using ⟨freeFirst, freeSecond⟩) (by simp)
    simpa using joined

theorem names_eq_pair_iff {text first second : List Char} :
    names text = some [first, second] ↔ ∃ token other, text = '/' :: (token ++ '/' :: other) ∧
      '/' ∉ token ∧ '/' ∉ other ∧ unescaped token = some first ∧ unescaped other = some second := by
  unfold names
  split
  · simp
  next tokens =>
    rw [mapM_eq_some_iff]
    constructor
    · intro aligned
      obtain ⟨token, rest, isFirst, alignedRest, isSplit⟩ := List.forall₂_cons_right_iff.mp aligned
      obtain ⟨other, more, isSecond, none, rfl⟩ := List.forall₂_cons_right_iff.mp alignedRest
      rw [List.forall₂_nil_right_iff.mp none] at isSplit
      obtain ⟨rfl, freeFirst, freeSecond⟩ := splitOn_eq_pair_iff.mp isSplit
      exact ⟨token, other, rfl, freeFirst, freeSecond, isFirst, isSecond⟩
    · rintro ⟨token, other, isText, freeFirst, freeSecond, isFirst, isSecond⟩
      rw [splitOn_eq_pair_iff.mpr ⟨(List.cons.inj isText).2, freeFirst, freeSecond⟩]
      exact .cons isFirst (.cons isSecond .nil)
  next unslashed =>
    refine ⟨nofun, ?_⟩
    rintro ⟨token, other, rfl, -⟩
    exact (unslashed _ rfl).elim

/-- Without percent signs a fragment is the pointer itself. -/
theorem read_of_plain {reference : String} {fragment : List Char}
    (isFragment : reference.toList = '#' :: fragment) (plain : '%' ∉ fragment) :
    read reference = (names fragment).map (·.map String.ofList) := by
  rw [read, isFragment]
  simp only [decoded_of_plain plain, Option.bind_some]

theorem isPlain_iff (name : String) :
    IsPlain name ↔ '/' ∉ name.toList ∧ '~' ∉ name.toList ∧ '%' ∉ name.toList := by
  simp [IsPlain]

/-- A reference that is made of a key and a name without escapes is read as the two exactly if neither
has a character that is escaped in pointers. Whatever is unescaped gets lighter, so that nothing was if
the names weigh as much as the reference. -/
theorem read_eq_pair_iff (key name : String) :
    read ("#/" ++ key ++ "/" ++ name) = some [key, name] ↔ IsPlain key ∧ IsPlain name := by
  have isRead : read ("#/" ++ key ++ "/" ++ name) = some [key, name] ↔
      ∃ text, decoded ('/' :: (key.toList ++ '/' :: name.toList)) = some text ∧
        names text = some [key.toList, name.toList] := by
    have isText : ("#/" ++ key ++ "/" ++ name).toList =
        '#' :: '/' :: (key.toList ++ '/' :: name.toList) := by simp
    rw [read, isText]
    simp only [Option.map_eq_some_iff, Option.bind_eq_some_iff]
    constructor
    · rintro ⟨found, ⟨text, isDecoded, areNames⟩, same⟩
      obtain rfl : found = [key.toList, name.toList] := by
        simpa using congrArg (List.map String.toList) same
      exact ⟨text, isDecoded, areNames⟩
    · rintro ⟨text, isDecoded, areNames⟩
      exact ⟨_, ⟨text, isDecoded, areNames⟩, by simp⟩
  rw [isRead, isPlain_iff, isPlain_iff]
  constructor
  · rintro ⟨text, isDecoded, areNames⟩
    obtain ⟨token, other, rfl, freeFirst, freeSecond, isKey, isName⟩ := names_eq_pair_iff.mp areNames
    obtain ⟨bound, strict⟩ := weight_decoded isDecoded
    obtain ⟨keyBound, keyStrict⟩ := weight_unescaped isKey
    obtain ⟨nameBound, nameStrict⟩ := weight_unescaped isName
    simp only [weight_cons, weight_append] at bound strict
    have plain : '%' ∉ '/' :: (key.toList ++ '/' :: name.toList) := fun isPercent => by
      have := strict isPercent
      omega
    have plainKey : '~' ∉ token := fun isTilde => by
      have := keyStrict isTilde
      omega
    have plainName : '~' ∉ other := fun isTilde => by
      have := nameStrict isTilde
      omega
    obtain rfl := Option.some.inj ((unescaped_of_plain plainKey).symm.trans isKey)
    obtain rfl := Option.some.inj ((unescaped_of_plain plainName).symm.trans isName)
    have plain : '%' ∉ key.toList ∧ '%' ∉ name.toList := by simpa using plain
    exact ⟨⟨freeFirst, plainKey, plain.1⟩, freeSecond, plainName, plain.2⟩
  · rintro ⟨⟨keySlash, keyTilde, keyPercent⟩, nameSlash, nameTilde, namePercent⟩
    refine ⟨_, decoded_of_plain (by simpa using ⟨keyPercent, namePercent⟩), ?_⟩
    exact names_eq_pair_iff.mpr ⟨_, _, rfl, keySlash, nameSlash, unescaped_of_plain keyTilde,
      unescaped_of_plain nameTilde⟩

end Pointer

end TypedReply
