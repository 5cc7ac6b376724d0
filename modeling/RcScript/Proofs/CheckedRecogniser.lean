import RcScript.Token.Recogniser
import RcScript.Proofs.CheckedText
import RcScript.Proofs.WordRecognition

/-!
# Recognition by byte offsets

The recognisers of the language count characters. Here each of them counts bytes, cuts
the text at the counts it has found so far and compares the bytes of a compound key one
by one. Counted in bytes they are never refused and find what they find counted in
characters. Recognisers that look behind their start are left to the scanner.
-/

namespace RcScript

open Text

namespace Text

/-- The measure of the first characters, cut in two. -/
theorem utf8Length_take_add (cs : List Char) (m n : Nat) :
    utf8Length (cs.take (m + n)) = utf8Length (cs.take m) + utf8Length ((cs.drop m).take n) := by
  rw [List.take_add, utf8Length_append]

/-- More characters of a text take no fewer bytes. -/
theorem utf8Length_take_le (cs : List Char) {m n : Nat} (h : m ≤ n) :
    utf8Length (cs.take m) ≤ utf8Length (cs.take n) := by
  have hadd := utf8Length_take_add cs m (n - m)
  rw [Nat.add_sub_cancel' h] at hadd
  omega

/-- More characters measure more, up to the end of the text. -/
theorem utf8Length_take_le_iff {cs : List Char} {m n : Nat} (h : m ≤ cs.length) :
    utf8Length (cs.take m) ≤ utf8Length (cs.take n) ↔ m ≤ n := by
  refine ⟨fun hle => Nat.le_of_not_lt fun hlt => ?_, utf8Length_take_le cs⟩
  have hadd := utf8Length_take_add cs n (m - n)
  rw [Nat.add_sub_cancel' (Nat.le_of_lt hlt)] at hadd
  have hpos : 0 < utf8Length ((cs.drop n).take (m - n)) := by
    refine utf8Length_pos (List.ne_nil_of_length_pos ?_)
    rw [List.length_take, List.length_drop]
    omega
  omega

/-- The longer of two starts of a text in characters is the longer in bytes. -/
theorem max_utf8Length_take (cs : List Char) (m n : Nat) :
    max (utf8Length (cs.take m)) (utf8Length (cs.take n)) = utf8Length (cs.take (max m n)) := by
  rcases Nat.le_total m n with hle | hle
  · rw [Nat.max_eq_right hle, Nat.max_eq_right (utf8Length_take_le cs hle)]
  · rw [Nat.max_eq_left hle, Nat.max_eq_left (utf8Length_take_le cs hle)]

/-- A run is empty in bytes when it is in characters. -/
theorem positive?_runBytes (p : Char → Bool) (cs : List Char) :
    positive? (runBytes p cs) =
      (positive? (runLength p cs)).map fun count => utf8Length (cs.take count) := by
  rw [runBytes_eq]
  cases hrun : runLength p cs with
  | zero => rfl
  | succ n =>
    have hpos : 0 < utf8Length (cs.take (n + 1)) := by
      refine utf8Length_pos fun hnil => ?_
      rw [← hrun, take_runLength] at hnil
      rw [runLength, hnil, List.length_nil] at hrun
      omega
    rw [positive?, Option.map_some, positive?_eq_some]
    exact ⟨rfl, hpos⟩

end Text

namespace Pattern

/-- Length in bytes of a compound key, of which all five bytes are read before they are
compared. -/
def compoundKeyBytes (cs : List Char) : Checked (Option Nat) :=
  if 5 ≤ (utf8Bytes cs).length then do
    let opening := Char.ofUInt8 (← byteAt? 0 cs)
    let modifier := Char.ofUInt8 (← byteAt? 1 cs)
    let hyphen := Char.ofUInt8 (← byteAt? 2 cs)
    let key := Char.ofUInt8 (← byteAt? 3 cs)
    let closing := Char.ofUInt8 (← byteAt? 4 cs)
    return if opening = '<' ∧ isModifier modifier ∧ hyphen = '-' ∧ isLetter key ∧ closing = '>'
      then some 5 else none
  else return none

/-- Length in bytes of a domain pattern. -/
def domainBytes (cs : List Char) : Checked (Option Nat) :=
  match positive? (runBytes isLabelChar cs) with
  | none => return none
  | some label => do
    match ← from? label cs with
    | '.' :: rest =>
      return (positive? (runBytes (fun c => !isWhiteSpace c) rest)).map fun tail =>
        label + 1 + tail
    | _ => return none

/-- Length in bytes of a URL. -/
def urlBytes (cs : List Char) : Checked (Option Nat) :=
  match schemes.find? fun scheme => scheme.isPrefixOf cs with
  | none => return none
  | some scheme => do
    match ← from? (utf8Length scheme) cs with
    | first :: any :: _ =>
      if isHostStart first then
        let host := utf8Length scheme + first.utf8Size + any.utf8Size
        return some (host + runBytes (fun c => !isWhiteSpace c) (← from? host cs))
      else return none
    | _ => return none

/-- Length in bytes of the longest match at the start of a text. -/
def matchBytes (pattern : Pattern) (cs : List Char) : Checked (Option Nat) :=
  match pattern with
  | compoundKey => compoundKeyBytes cs
  | domain => domainBytes cs
  | url => urlBytes cs
  | number => return positive? (runBytes Char.isDigit cs)
  | identifier => return positive? (runBytes isNameChar cs)
  | singleKey => return (cs.head?.filter isLetter).map fun _ => 1

/-- The longest match of the allowed patterns in bytes, with ties settled by rank. -/
def longestBytes (allowed : List Pattern) (cs : List Char) : Checked (Option (Pattern × Nat)) := do
  let found ← (priority.filter allowed.contains).mapM fun pattern => do
    return (← pattern.matchBytes cs).map fun length => (pattern, length)
  return (found.filterMap id).foldl better none

/-- The length in bytes of a match counted in characters. -/
def measured (cs : List Char) (found : Pattern × Nat) : Pattern × Nat :=
  (found.1, utf8Length (cs.take found.2))

/-- A letter is one byte. -/
theorem isAscii_of_isLetter {c : Char} (h : isLetter c = true) : IsAscii c := by
  rw [isLetter_iff_toNat] at h
  rw [IsAscii]
  omega

/-- A modifier is one byte. -/
theorem isAscii_of_isModifier {c : Char} (h : isModifier c = true) : IsAscii c := by
  simp only [isModifier, List.contains_eq_mem, List.mem_cons, List.not_mem_nil, or_false,
    decide_eq_true_eq] at h
  rcases h with rfl | rfl | rfl | rfl | rfl | rfl <;> decide

/-- A text that starts with a compound key starts with its five bytes. -/
theorem exists_bytes_of_compoundKey {cs : List Char} {count : Nat}
    (h : compoundKey.matchCount cs = some count) :
    ∃ opening modifier hyphen key closing later,
      utf8Bytes cs = opening :: modifier :: hyphen :: key :: closing :: later ∧
        Char.ofUInt8 opening = '<' ∧ isModifier (Char.ofUInt8 modifier) = true ∧
        Char.ofUInt8 hyphen = '-' ∧ isLetter (Char.ofUInt8 key) = true ∧
        Char.ofUInt8 closing = '>' := by
  obtain ⟨w, rest, rfl, -, m, k, hm, hk, rfl⟩ := exists_lang_of_matchCount h
  have hopening : IsAscii '<' := by decide
  have hhyphen : IsAscii '-' := by decide
  have hclosing : IsAscii '>' := by decide
  obtain ⟨b₀, h₀, hb₀⟩ := hopening.utf8Bytes_cons (m :: '-' :: k :: '>' :: rest)
  obtain ⟨b₁, h₁, hb₁⟩ := (isAscii_of_isModifier hm).utf8Bytes_cons ('-' :: k :: '>' :: rest)
  obtain ⟨b₂, h₂, hb₂⟩ := hhyphen.utf8Bytes_cons (k :: '>' :: rest)
  obtain ⟨b₃, h₃, hb₃⟩ := (isAscii_of_isLetter hk).utf8Bytes_cons ('>' :: rest)
  obtain ⟨b₄, h₄, hb₄⟩ := hclosing.utf8Bytes_cons rest
  refine ⟨b₀, b₁, b₂, b₃, b₄, utf8Bytes rest, ?_, hb₀, hb₁ ▸ hm, hb₂, hb₃ ▸ hk, hb₄⟩
  rw [← h₄, ← h₃, ← h₂, ← h₁, ← h₀]
  rfl

/-- A text that starts with the five bytes of a compound key starts with the key. -/
theorem compoundKey_of_bytes {cs : List Char} {opening modifier hyphen key closing : UInt8}
    {later : List UInt8}
    (h : utf8Bytes cs = opening :: modifier :: hyphen :: key :: closing :: later)
    (hopening : Char.ofUInt8 opening = '<') (hmodifier : isModifier (Char.ofUInt8 modifier) = true)
    (hhyphen : Char.ofUInt8 hyphen = '-') (hkey : isLetter (Char.ofUInt8 key) = true)
    (hclosing : Char.ofUInt8 closing = '>') :
    ∃ rest, cs = ['<', Char.ofUInt8 modifier, '-', Char.ofUInt8 key, '>'] ++ rest := by
  obtain ⟨cs₁, rfl, h₁⟩ := exists_cons_of_utf8Bytes h (by decide) hopening
  obtain ⟨cs₂, rfl, h₂⟩ := exists_cons_of_utf8Bytes h₁ (isAscii_of_isModifier hmodifier) rfl
  obtain ⟨cs₃, rfl, h₃⟩ := exists_cons_of_utf8Bytes h₂ (by decide) hhyphen
  obtain ⟨cs₄, rfl, h₄⟩ := exists_cons_of_utf8Bytes h₃ (isAscii_of_isLetter hkey) rfl
  obtain ⟨rest, rfl, -⟩ := exists_cons_of_utf8Bytes h₄ (by decide) hclosing
  exact ⟨rest, rfl⟩

/-- A compound key is found by its five bytes as it is found by its five characters. -/
theorem compoundKeyBytes_eq (cs : List Char) :
    compoundKeyBytes cs =
      some ((compoundKey.matchCount cs).map fun count => utf8Length (cs.take count)) := by
  cases hbytes : compoundKey.matchCount cs with
  | none =>
    rw [Option.map_none]
    by_cases hlength : 5 ≤ (utf8Bytes cs).length
    · match hcs : utf8Bytes cs with
      | opening :: modifier :: hyphen :: key :: closing :: later =>
        have hno : ¬ (Char.ofUInt8 opening = '<' ∧ isModifier (Char.ofUInt8 modifier) = true ∧
            Char.ofUInt8 hyphen = '-' ∧ isLetter (Char.ofUInt8 key) = true ∧
            Char.ofUInt8 closing = '>') := by
          rintro ⟨hopening, hmodifier, hhyphen, hkey, hclosing⟩
          obtain ⟨rest, rfl⟩ := compoundKey_of_bytes hcs hopening hmodifier hhyphen hkey hclosing
          simp [matchCount, matchCompoundKey, hmodifier, hkey] at hbytes
        simp [compoundKeyBytes, byteAt?, hcs, hno]
      | [] | [_] | [_, _] | [_, _, _] | [_, _, _, _] => simp [hcs] at hlength
    · rw [compoundKeyBytes, if_neg hlength]
      rfl
  | some count =>
    obtain ⟨w, rest, hcs, rfl, m, k, hm, hk, rfl⟩ := exists_lang_of_matchCount hbytes
    obtain ⟨b₀, b₁, b₂, b₃, b₄, later, hlist, hall⟩ := exists_bytes_of_compoundKey hbytes
    have hmeasure : utf8Length (cs.take 5) = 5 := by
      rw [hcs]
      simp [(isAscii_of_isModifier hm).utf8Size, (isAscii_of_isLetter hk).utf8Size]
      decide
    simp [compoundKeyBytes, byteAt?, hlist, hall, hmeasure]

/-- A domain is cut behind its label and never inside a character, and is as long as its characters.
-/
theorem domainBytes_eq (cs : List Char) :
    domainBytes cs =
      some ((domain.matchCount cs).map fun count => utf8Length (cs.take count)) := by
  rw [domainBytes, matchCount, matchDomain, positive?_runBytes]
  cases positive? (runLength isLabelChar cs) with
  | none => rfl
  | some label =>
    have hmeasure : ∀ rest, cs.drop label = '.' :: rest → ∀ tail,
        utf8Length (cs.take (label + 1 + tail)) =
          utf8Length (cs.take label) + 1 + utf8Length (rest.take tail) := by
      intro rest hrest tail
      have hdot : '.'.utf8Size = 1 := by decide
      rw [Nat.add_assoc, utf8Length_take_add, hrest, Nat.add_comm 1, List.take_succ_cons,
        utf8Length_cons, hdot, Nat.add_assoc]
    simp only [Option.map_some, from?_take, Option.bind_eq_bind, Option.bind_some]
    generalize cs.drop label = behind at hmeasure
    cases behind with
    | nil => rfl
    | cons c rest =>
      by_cases hdot : c = '.'
      · subst hdot
        simp only [positive?_runBytes, Option.map_map, Function.comp_def, hmeasure rest rfl]
        rfl
      · simp [hdot]

/-- A URL is cut behind its scheme and behind its host, never inside a character, and is as long as
its characters. -/
theorem urlBytes_eq (cs : List Char) :
    urlBytes cs = some ((url.matchCount cs).map fun count => utf8Length (cs.take count)) := by
  rw [urlBytes, matchCount, matchUrl]
  cases hscheme : schemes.find? fun scheme => scheme.isPrefixOf cs with
  | none => rfl
  | some scheme =>
    have hprefix := List.find?_some hscheme
    obtain ⟨later, rfl⟩ := List.isPrefixOf_iff_prefix.mp hprefix
    have hlater := from?_take scheme.length (scheme ++ later)
    rw [List.take_left, List.drop_left] at hlater
    simp only [hlater, List.drop_left, Option.bind_eq_bind, Option.bind_some]
    rcases later with _ | ⟨first, _ | ⟨any, rest⟩⟩
    · rfl
    · rfl
    · have hmeasure : ∀ tail, utf8Length ((scheme ++ first :: any :: rest).take
          (scheme.length + (2 + tail))) =
            utf8Length scheme + first.utf8Size + any.utf8Size + utf8Length (rest.take tail) := by
        intro tail
        rw [utf8Length_take_add, List.take_left, List.drop_left, Nat.add_comm 2,
          List.take_succ_cons, List.take_succ_cons, utf8Length_cons, utf8Length_cons]
        omega
      have hhost := from?_take (scheme.length + (2 + 0)) (scheme ++ first :: any :: rest)
      rw [hmeasure, List.take_zero, utf8Length_nil, Nat.add_zero, Nat.add_zero,
        ← List.drop_drop, List.drop_left] at hhost
      simp only [matchHost]
      by_cases hfirst : isHostStart first = true
      · simp only [if_pos hfirst, hhost, Option.bind_some, Option.map_some, hmeasure, runBytes_eq]
        rfl
      · simp only [if_neg hfirst]
        rfl

/-- A match counted in bytes is the match counted in characters. -/
theorem matchBytes_eq (pattern : Pattern) (cs : List Char) :
    pattern.matchBytes cs =
      some ((pattern.matchCount cs).map fun count => utf8Length (cs.take count)) := by
  cases pattern with
  | compoundKey => exact compoundKeyBytes_eq cs
  | domain => exact domainBytes_eq cs
  | url => exact urlBytes_eq cs
  | number => exact congrArg some (positive?_runBytes Char.isDigit cs)
  | identifier => exact congrArg some (positive?_runBytes isNameChar cs)
  | singleKey =>
    cases cs with
    | nil => rfl
    | cons c cs =>
      by_cases hc : isLetter c = true
      · have hsize := (isAscii_of_isLetter hc).utf8Size
        simp [matchBytes, matchCount, Option.filter, hc, hsize]
      · simp [matchBytes, matchCount, Option.filter, hc]

/-- A match goes no further than the text. -/
theorem matchCount_le_length {pattern : Pattern} {cs : List Char} {count : Nat}
    (h : pattern.matchCount cs = some count) : count ≤ cs.length := by
  obtain ⟨w, rest, rfl, rfl, -⟩ := exists_lang_of_matchCount h
  rw [List.length_append]
  omega

/-- The same match is the better one in bytes as in characters. -/
theorem better_measured {cs : List Char} (best : Option (Pattern × Nat)) {next : Pattern × Nat}
    (h : next.2 ≤ cs.length) :
    better (best.map (measured cs)) (measured cs next) =
      (better best next).map (measured cs) := by
  cases best with
  | none => rfl
  | some found =>
    have hle : (measured cs next).2 ≤ (measured cs found).2 ↔ next.2 ≤ found.2 :=
      utf8Length_take_le_iff h
    simp only [better, Option.map_some, hle]
    split <;> rfl

/-- Choosing the better match by bytes is choosing it by characters, since all of them are starts of
one text. -/
theorem foldl_better_measured {cs : List Char} {candidates : List (Pattern × Nat)}
    (h : ∀ next ∈ candidates, next.2 ≤ cs.length) (best : Option (Pattern × Nat)) :
    (candidates.map (measured cs)).foldl better (best.map (measured cs)) =
      (candidates.foldl better best).map (measured cs) := by
  induction candidates generalizing best with
  | nil => rfl
  | cons next later ih =>
    have hnext := better_measured best (h next List.mem_cons_self)
    rw [List.map_cons, List.foldl_cons, hnext, List.foldl_cons]
    exact ih (fun other hmem => h other (List.mem_cons_of_mem _ hmem)) _

/-- The longest match in bytes is the longest in characters. -/
theorem longestBytes_eq (allowed : List Pattern) (cs : List Char) :
    longestBytes allowed cs = some ((longest allowed cs).map (measured cs)) := by
  have hfound : ((priority.filter allowed.contains).mapM fun pattern => do
      return (← pattern.matchBytes cs).map fun length => (pattern, length)) =
        some ((priority.filter allowed.contains).map fun pattern =>
          ((pattern.matchCount cs).map fun count => (pattern, count)).map (measured cs)) := by
    rw [← Option.pure_def, ← List.mapM_pure]
    simp only [matchBytes_eq, Option.bind_eq_bind, Option.bind_some, Option.pure_def,
      Option.map_map]
    rfl
  have hbound : ∀ next ∈ (priority.filter allowed.contains).filterMap fun pattern =>
      (pattern.matchCount cs).map fun count => (pattern, count), next.2 ≤ cs.length := by
    intro next hmem
    obtain ⟨pattern, -, hmatch⟩ := List.mem_filterMap.mp hmem
    obtain ⟨count, hcount, rfl⟩ := Option.map_eq_some_iff.mp hmatch
    exact matchCount_le_length hcount
  have hbest := foldl_better_measured hbound none
  rw [longestBytes, hfound]
  simp only [Option.bind_eq_bind, Option.bind_some, List.filterMap_map]
  rw [List.map_filterMap] at hbest
  exact congrArg some hbest

end Pattern

/-- A way to recognise the start of a text that counts bytes. -/
abbrev ByteRecogniser := List Char → Checked (Option (TokenKind × Nat))

/-- The kind of a lexeme and its length in bytes. -/
def Lexeme.measured (cs : List Char) (lexeme : Lexeme) : TokenKind × Nat :=
  (lexeme.kind, utf8Length (cs.take lexeme.count))

/-- The byte recogniser is never refused and finds what the recogniser finds. -/
def ByteRecogniser.Counts (bytes : ByteRecogniser) (recogniser : Recogniser) : Prop :=
  ∀ cs, bytes cs = some ((recogniser cs).map (Lexeme.measured cs))

namespace ByteRecogniser

/-- Recognise the first `length` bytes if a blank or the end of the text follows. -/
def alone (kind : TokenKind) (length : Nat) : ByteRecogniser := fun cs => do
  let behind ← from? length cs
  return if behind.head?.all isBlank then some (kind, length) else none

/-- Recognise the given word, standing alone. -/
def keyword (word : String) : ByteRecogniser := fun cs =>
  if word.toList.isPrefixOf cs then alone .keyword (utf8Length word.toList) cs else return none

/-- Recognise the given flag, which stands alone unless it ends in `=`. -/
def flag (word : String) : ByteRecogniser := fun cs =>
  if word.toList.isPrefixOf cs then
    if word.toList.getLast? == some '=' then return some (.flag, utf8Length word.toList)
    else alone .flag (utf8Length word.toList) cs
  else return none

/-- Recognise the run of word characters if it stands alone and is one of `names`. -/
def named (kind : TokenKind) (names : List String) : ByteRecogniser := fun cs => do
  let length := runBytes isWordChar cs
  let name ← slice? 0 length cs
  if names.contains (String.ofList name) then alone kind length cs else return none

/-- Number of bytes of the longest listed command that the text starts with. -/
def listedBytes (cs : List Char) : Nat :=
  ((commandNames.map String.toList).filter fun name => name.isPrefixOf cs).foldl
    (fun length name => max length (utf8Length name)) 0

/-- Recognise a command name, standing alone. -/
def commandName : ByteRecogniser := fun cs => do
  let length := max (listedBytes cs) ((← Pattern.identifier.matchBytes cs).getD 0)
  if 0 < length then alone .identifier length cs else return none

/-- Recognise the longest match of the allowed patterns. -/
def structural (allowed : List Pattern) : ByteRecogniser := fun cs => do
  return (← Pattern.longestBytes allowed cs).map fun found => (found.1.tokenKind, found.2)

/-- A length that measures first characters is not refused. -/
theorem alone_take (kind : TokenKind) (count : Nat) (cs : List Char) :
    alone kind (utf8Length (cs.take count)) cs =
      some (if endsWord count cs then some (kind, utf8Length (cs.take count)) else none) := by
  rw [alone, from?_take]
  rfl

/-- A word at the start of a text is measured by its own bytes. -/
theorem utf8Length_of_isPrefixOf {word cs : List Char} (h : word.isPrefixOf cs = true) :
    utf8Length word = utf8Length (cs.take word.length) := by
  obtain ⟨rest, rfl⟩ := List.isPrefixOf_iff_prefix.mp h
  rw [List.take_left]

/-- A keyword is found by its bytes as it is found by its characters. -/
theorem counts_keyword (word : String) : (keyword word).Counts (Recogniser.keyword word) := by
  intro cs
  rw [keyword, Recogniser.keyword]
  by_cases hprefix : word.toList.isPrefixOf cs = true
  · rw [if_pos hprefix, utf8Length_of_isPrefixOf hprefix, alone_take, hprefix, Bool.true_and]
    split <;> rfl
  · rw [if_neg hprefix, Bool.eq_false_iff.mpr hprefix]
    rfl

/-- A flag is found by its bytes as it is found by its characters. -/
theorem counts_flag (word : String) : (flag word).Counts (Recogniser.flag word) := by
  intro cs
  rw [flag, Recogniser.flag]
  by_cases hprefix : word.toList.isPrefixOf cs = true
  · rw [if_pos hprefix, utf8Length_of_isPrefixOf hprefix, alone_take, hprefix, Bool.true_and]
    by_cases hvalue : (word.toList.getLast? == some '=') = true
    · rw [if_pos hvalue, hvalue]
      rfl
    · rw [if_neg hvalue, Bool.eq_false_iff.mpr hvalue, Bool.false_or]
      split <;> rfl
  · rw [if_neg hprefix, Bool.eq_false_iff.mpr hprefix]
    rfl

/-- One of a list of names is cut out of the text whole, and found as it is found by its characters.
-/
theorem counts_named (kind : TokenKind) (names : List String) :
    (named kind names).Counts (Recogniser.named kind names) := by
  intro cs
  simp only [named, Recogniser.named, runBytes_eq, slice?_take, Option.bind_eq_bind,
    Option.bind_some, alone_take]
  by_cases hname : names.contains (String.ofList (cs.take (runLength isWordChar cs))) = true
  · rw [if_pos hname, hname, Bool.true_and]
    split <;> rfl
  · rw [if_neg hname, Bool.eq_false_iff.mpr hname]
    rfl

/-- The longest of some words at the start of a text is the longest in bytes. -/
theorem foldl_max_utf8Length {names : List (List Char)} {cs : List Char}
    (h : ∀ name ∈ names, name.isPrefixOf cs = true) (count : Nat) :
    names.foldl (fun length name => max length (utf8Length name)) (utf8Length (cs.take count)) =
      utf8Length (cs.take (names.foldl (fun count name => max count name.length) count)) := by
  induction names generalizing count with
  | nil => rfl
  | cons name later ih =>
    have hname := utf8Length_of_isPrefixOf (h name List.mem_cons_self)
    rw [List.foldl_cons, List.foldl_cons, hname, max_utf8Length_take]
    exact ih (fun other hmem => h other (List.mem_cons_of_mem _ hmem)) _

/-- The longest listed name in bytes is the longest in characters. -/
theorem listedBytes_eq (cs : List Char) :
    listedBytes cs = utf8Length (cs.take (Recogniser.listedCount cs)) :=
  foldl_max_utf8Length (fun _ hmem => (List.mem_filter.mp hmem).2) 0

/-- The name of a command is as long in bytes as its characters, listed or not. -/
theorem counts_commandName : commandName.Counts Recogniser.commandName := by
  intro cs
  have hidentifier : ((Pattern.identifier.matchCount cs).map
      fun count => utf8Length (cs.take count)).getD 0 =
        utf8Length (cs.take ((Pattern.identifier.matchCount cs).getD 0)) := by
    cases Pattern.identifier.matchCount cs <;> rfl
  simp only [commandName, Recogniser.commandName, Pattern.matchBytes_eq, Option.bind_eq_bind,
    Option.bind_some, hidentifier, listedBytes_eq, max_utf8Length_take, alone_take]
  by_cases hpos : 0 < max (Recogniser.listedCount cs) ((Pattern.identifier.matchCount cs).getD 0)
  · obtain ⟨name, rest, hcs, hname, hcount⟩ := Recogniser.exists_commandName hpos
    have hmeasure : 0 < utf8Length (cs.take name.toList.length) := by
      rw [hcs, List.take_left]
      exact utf8Length_pos (Recogniser.isWord_of_commandName hname).1
    rw [hcount] at hpos ⊢
    rw [if_pos hmeasure, decide_eq_true hpos, Bool.true_and]
    split <;> rfl
  · rw [Nat.eq_zero_of_not_pos hpos]
    rfl

/-- The pattern that is found by bytes is the one found by characters, at the same length. -/
theorem counts_structural (allowed : List Pattern) :
    (structural allowed).Counts (Recogniser.structural allowed) := by
  intro cs
  simp only [structural, Recogniser.structural, Pattern.longestBytes_eq, Option.bind_eq_bind,
    Option.bind_some, Option.map_map]
  rfl

end ByteRecogniser

end RcScript
