import RcScript.Reader
import RcScript.Proofs.CheckedRecogniser
import RcScript.Proofs.CursorMotion

/-!
# The choice among patterns

Where several patterns are allowed at a cursor, the longest match gives the token, and of
equally long matches the one of lowest rank. The choice passes the matches by rank and keeps
what it has unless the next one is longer. What it keeps therefore holds against every match
it has passed, and only which patterns are allowed has a part in it: neither the order in
which they are given nor how often.
-/

namespace RcScript

open Text

namespace Pattern

/-- A match holds against another one that is shorter, or as long and of no lower rank. -/
def HoldsAgainst (found other : Pattern × Nat) : Prop :=
  other.2 < found.2 ∨ other.2 = found.2 ∧ found.1.rank ≤ other.1.rank

/-- A match holds against itself. -/
theorem holdsAgainst_self (found : Pattern × Nat) : HoldsAgainst found found :=
  .inr ⟨rfl, Nat.le_refl _⟩

/-- A match that holds against another holds against whatever that one holds against. -/
theorem HoldsAgainst.trans {first second third : Pattern × Nat} (h : HoldsAgainst first second)
    (h' : HoldsAgainst second third) : HoldsAgainst first third := by
  unfold HoldsAgainst at h h' ⊢
  omega

/-- What is kept at one step holds against the next match and against what was kept before, when
the matches come by rank. -/
theorem holds_better {best : Option (Pattern × Nat)} {next found : Pattern × Nat}
    (h : better best next = some found) (hrank : ∀ kept ∈ best, kept.1.rank ≤ next.1.rank) :
    found.1.rank ≤ next.1.rank ∧ HoldsAgainst found next ∧
      ∀ kept ∈ best, HoldsAgainst found kept := by
  cases best with
  | none =>
    obtain rfl := Option.some.inj h
    exact ⟨Nat.le_refl _, holdsAgainst_self _, by simp⟩
  | some kept =>
    have hkept := hrank kept rfl
    simp only [better] at h
    split at h
    · next hle =>
      obtain rfl := Option.some.inj h
      refine ⟨hkept, ?_, ?_⟩
      · unfold HoldsAgainst
        omega
      · rintro other ⟨⟩
        exact holdsAgainst_self _
    · next hlt =>
      obtain rfl := Option.some.inj h
      refine ⟨Nat.le_refl _, holdsAgainst_self _, ?_⟩
      rintro other ⟨⟩
      exact .inl (by omega)

/-- What is kept in the end holds against all matches that were passed. -/
theorem holds_foldl_better {matched : List (Pattern × Nat)} {best : Option (Pattern × Nat)}
    {found : Pattern × Nat} (h : matched.foldl better best = some found)
    (hsorted : matched.Pairwise fun first second => first.1.rank ≤ second.1.rank)
    (hrank : ∀ kept ∈ best, ∀ next ∈ matched, kept.1.rank ≤ next.1.rank) :
    (∀ next ∈ matched, HoldsAgainst found next) ∧ ∀ kept ∈ best, HoldsAgainst found kept := by
  induction matched generalizing best with
  | nil =>
    refine ⟨by simp, ?_⟩
    rintro kept hkept
    obtain rfl := Option.some.inj (hkept.symm.trans h)
    exact holdsAgainst_self _
  | cons next later ih =>
    obtain ⟨hnext, hlater⟩ := List.pairwise_cons.mp hsorted
    obtain ⟨middle, hmiddle⟩ : ∃ middle, better best next = some middle := by
      unfold better
      split
      · split <;> exact ⟨_, rfl⟩
      · exact ⟨_, rfl⟩
    obtain ⟨hle, hstep, hbefore⟩ :=
      holds_better hmiddle fun kept hkept => hrank kept hkept next List.mem_cons_self
    rw [List.foldl_cons, hmiddle] at h
    obtain ⟨hmatched, hheld⟩ := ih h hlater fun kept hkept other hother => by
      obtain rfl := Option.some.inj hkept
      exact Nat.le_trans hle (hnext other hother)
    have hfound := hheld middle rfl
    refine ⟨?_, fun kept hkept => hfound.trans (hbefore kept hkept)⟩
    intro other hother
    rcases List.mem_cons.mp hother with rfl | hother
    · exact hfound.trans hstep
    · exact hmatched other hother

/-- The matches of the allowed patterns, by rank. -/
def matched (allowed : List Pattern) (cs : List Char) : List (Pattern × Nat) :=
  (priority.filter allowed.contains).filterMap fun pattern =>
    (pattern.matchCount cs).map fun count => (pattern, count)

/-- The longest match is found by going through the matches in the order of their ranks. -/
theorem longest_eq (allowed : List Pattern) (cs : List Char) :
    longest allowed cs = (matched allowed cs).foldl better none := rfl

/-- Every pattern stands in the list by which patterns are ranked. -/
theorem mem_priority (pattern : Pattern) : pattern ∈ priority := by
  cases pattern <;> decide

/-- The matches are those of the patterns that are allowed. -/
theorem mem_matched {allowed : List Pattern} {cs : List Char} {pattern : Pattern} {count : Nat} :
    (pattern, count) ∈ matched allowed cs ↔
      pattern ∈ allowed ∧ pattern.matchCount cs = some count := by
  simp only [matched, List.mem_filterMap, List.mem_filter, List.contains_iff_mem,
    Option.map_eq_some_iff, Prod.mk.injEq]
  constructor
  · rintro ⟨other, ⟨-, hother⟩, n, hn, rfl, rfl⟩
    exact ⟨hother, hn⟩
  · rintro ⟨hallowed, hcount⟩
    exact ⟨pattern, ⟨mem_priority pattern, hallowed⟩, count, hcount, rfl, rfl⟩

/-- The matches stand in the order of their ranks. -/
theorem sorted_matched (allowed : List Pattern) (cs : List Char) :
    (matched allowed cs).Pairwise fun first second => first.1.rank ≤ second.1.rank := by
  have hpriority : priority.Pairwise fun first second => first.rank ≤ second.rank := by decide
  refine List.Pairwise.filterMap _ ?_ (hpriority.filter _)
  intro first second hle found hfound other hother
  obtain ⟨-, -, rfl⟩ := Option.map_eq_some_iff.mp hfound
  obtain ⟨-, -, rfl⟩ := Option.map_eq_some_iff.mp hother
  exact hle

/-- The choice is among the same matches where the same patterns are allowed. -/
theorem longest_congr {allowed others : List Pattern} (h : ∀ p, p ∈ others ↔ p ∈ allowed)
    (cs : List Char) : longest others cs = longest allowed cs := by
  have hcontains : ∀ p ∈ priority, others.contains p = allowed.contains p := by
    intro p _
    rw [Bool.eq_iff_iff, List.contains_iff_mem, List.contains_iff_mem]
    exact h p
  rw [longest, longest, List.filter_congr hcontains]

/-- There is no longest match only where no pattern matches. -/
theorem longest_eq_none {allowed : List Pattern} {cs : List Char} :
    longest allowed cs = none ↔ ∀ pattern ∈ allowed, pattern.matchCount cs = none := by
  rw [longest_eq, foldl_better_eq_none, List.eq_nil_iff_forall_not_mem]
  constructor
  · rintro ⟨hnone, -⟩ pattern hallowed
    cases hcount : pattern.matchCount cs with
    | none => rfl
    | some count => exact absurd (mem_matched.mpr ⟨hallowed, hcount⟩) (hnone _)
  · intro hnone
    refine ⟨?_, rfl⟩
    rintro ⟨pattern, count⟩ hmem
    obtain ⟨hallowed, hcount⟩ := mem_matched.mp hmem
    rw [hnone pattern hallowed] at hcount
    exact absurd hcount (by simp)

/-- The longest match holds against all matches of the allowed patterns. -/
theorem holds_longest {allowed : List Pattern} {cs : List Char} {found : Pattern × Nat}
    (h : longest allowed cs = some found) : ∀ next ∈ matched allowed cs, HoldsAgainst found next :=
  (holds_foldl_better h (sorted_matched allowed cs) (by simp)).1

/-- A match holds in bytes against what it holds against in characters. -/
theorem HoldsAgainst.measured {cs : List Char} {found other : Pattern × Nat}
    (h : HoldsAgainst found other) (hfound : found.2 ≤ cs.length) :
    HoldsAgainst (measured cs found) (measured cs other) := by
  have hle : (Pattern.measured cs found).2 ≤ (Pattern.measured cs other).2 ↔ found.2 ≤ other.2 :=
    utf8Length_take_le_iff hfound
  rcases h with hlt | ⟨heq, hrank⟩
  · exact .inl (Nat.lt_of_not_le fun hno => Nat.not_le_of_lt hlt (hle.mp hno))
  · refine .inr ⟨?_, hrank⟩
    simp only [Pattern.measured, heq]

/-- The length of a match in bytes is that of the characters that it covers. -/
theorem matchLength_ofList (pattern : Pattern) (cs : List Char) :
    pattern.matchLength (String.ofList cs) =
      (pattern.matchCount cs).map fun count => utf8Length (cs.take count) := by
  rw [matchLength, String.toList_ofList]

/-- A pattern of which the match at the start of a text, of the given length in bytes, holds
against those of all allowed patterns. -/
structure Prevails (allowed : List Pattern) (text : String) (pattern : Pattern) (length : Nat) :
    Prop where
  /-- The pattern is one of those that are allowed. -/
  mem : pattern ∈ allowed
  /-- It matches over the length. -/
  found : pattern.matchLength text = some length
  /-- Its match holds against every other. -/
  holds : ∀ other ∈ allowed, ∀ n, other.matchLength text = some n →
    HoldsAgainst (pattern, length) (other, n)

/-- No two patterns have one rank. -/
theorem eq_of_rank_eq {first second : Pattern} (h : first.rank = second.rank) :
    first = second := by
  revert h
  cases first <;> cases second <;> decide

/-- At most one pattern prevails. -/
theorem Prevails.unique {allowed : List Pattern} {text : String} {first second : Pattern}
    {m n : Nat} (h : Prevails allowed text first m) (h' : Prevails allowed text second n) :
    second = first ∧ n = m := by
  have hholds := h.holds second h'.mem n h'.found
  have hheld := h'.holds first h.mem m h.found
  simp only [HoldsAgainst] at hholds hheld
  exact ⟨eq_of_rank_eq (by omega), by omega⟩

/-- The longest match is that of the pattern that prevails. -/
theorem prevails_of_longest {allowed : List Pattern} {cs : List Char} {pattern : Pattern}
    {count : Nat} (h : longest allowed cs = some (pattern, count)) :
    Prevails allowed (String.ofList cs) pattern (utf8Length (cs.take count)) := by
  obtain ⟨hallowed, hcount⟩ := matchCount_of_longest h
  refine ⟨hallowed, ?_, ?_⟩
  · rw [matchLength_ofList, hcount, Option.map_some]
  · intro other hother n hn
    rw [matchLength_ofList, Option.map_eq_some_iff] at hn
    obtain ⟨m, hm, rfl⟩ := hn
    have hholds := holds_longest h (other, m) (mem_matched.mpr ⟨hother, hm⟩)
    exact hholds.measured (matchCount_le_length hcount)

end Pattern

namespace Cursor

/-- A structural token is looked for behind the blanks, as the longest match there. -/
theorem answer_structural (cursor : Cursor) (allowed : List Pattern) :
    cursor.answer (.structural allowed) = match Pattern.longest allowed cursor.unread with
      | some (pattern, count) =>
        (some (cursor.skipBlanks.token ⟨pattern.tokenKind, count⟩), cursor.skipBlanks.advance count)
      | none => (none, cursor.skipBlanks) := by
  have hlexeme : cursor.skipBlanks.lexeme? (.structural allowed) =
      (Pattern.longest allowed cursor.unread).map fun found => ⟨found.1.tokenKind, found.2⟩ := rfl
  simp only [answer, Request.skipsBlanks, if_true, hlexeme]
  cases Pattern.longest allowed cursor.unread <;> rfl

/-- A request for a structural token finds none only where no allowed pattern matches behind the
blanks. The token that it finds stands there, with the kind and the length of the one pattern
that prevails, and the cursor moves to its end. Lists of the same patterns are answered alike. -/
theorem takes_longest (cursor : Cursor) (allowed : List Pattern) :
    ((cursor.answer (.structural allowed)).1 = none ↔
        ∀ pattern ∈ allowed, pattern.matchLength (String.ofList cursor.unread) = none) ∧
      (∀ token, (cursor.answer (.structural allowed)).1 = some token →
        token.span.start = cursor.skipBlanks.position ∧
        (cursor.answer (.structural allowed)).2.position = token.span.stop ∧
        ∃ pattern, token.kind = pattern.tokenKind ∧
          Pattern.Prevails allowed (String.ofList cursor.unread) pattern token.span.length ∧
          ∀ other n, Pattern.Prevails allowed (String.ofList cursor.unread) other n →
            other = pattern ∧ n = token.span.length) ∧
      ∀ others : List Pattern, (∀ pattern, pattern ∈ others ↔ pattern ∈ allowed) →
        cursor.answer (.structural others) = cursor.answer (.structural allowed) := by
  refine ⟨?_, ?_, fun others hsame => ?_⟩
  · simp only [Pattern.matchLength_ofList, Option.map_eq_none_iff]
    rw [← Pattern.longest_eq_none, answer_structural]
    split <;> simp_all
  · intro token htoken
    rw [answer_structural] at htoken ⊢
    split at htoken
    · next pattern count hlongest =>
      obtain rfl := Option.some.inj htoken
      have hprevails := Pattern.prevails_of_longest hlongest
      have hlength : (cursor.skipBlanks.token ⟨pattern.tokenKind, count⟩).span.length =
          utf8Length (cursor.unread.take count) := Nat.add_sub_cancel_left _ _
      rw [hlength]
      exact ⟨rfl, advance_position _ _, pattern, rfl, hprevails,
        fun other n hother => hprevails.unique hother⟩
    · simp at htoken
  · rw [answer_structural, answer_structural, Pattern.longest_congr hsame]

end Cursor

end RcScript
