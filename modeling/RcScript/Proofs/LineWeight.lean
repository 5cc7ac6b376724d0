import RcScript.Proofs.LineSpacing

/-!
# The weight of canonical lines

A canonical line is never heavier than the line that its node was read from, under
any weight of characters that counts no blank below a space. Counting every
character bounds its length, and counting line feeds alone shows that it has none.
-/

namespace RcScript

open Text

/-- The weight of a list, given that of a character. -/
def weight (w : Char → Nat) : List Char → Nat
  | [] => 0
  | c :: cs => w c + weight w cs

variable {w : Char → Nat}

/-- The empty list weighs nothing. -/
theorem weight_nil : weight w [] = 0 := rfl

/-- A list weighs as much as its first character and what follows it. -/
theorem weight_cons (c : Char) (cs : List Char) : weight w (c :: cs) = w c + weight w cs := rfl

/-- Lists in sequence weigh as much as both. -/
theorem weight_append (cs ds : List Char) : weight w (cs ++ ds) = weight w cs + weight w ds := by
  induction cs with
  | nil => rw [List.nil_append, weight_nil, Nat.zero_add]
  | cons c cs ih => rw [List.cons_append, weight_cons, weight_cons, ih, Nat.add_assoc]

/-- Where every character weighs one, a list weighs its length. -/
theorem weight_one (cs : List Char) : weight (fun _ => 1) cs = cs.length := by
  induction cs with
  | nil => rfl
  | cons c cs ih =>
    rw [weight_cons, ih, List.length_cons]
    omega

/-- A list without weight has no character that weighs. -/
theorem weight_eq_zero {cs : List Char} : weight w cs = 0 ↔ ∀ c ∈ cs, w c = 0 := by
  induction cs with
  | nil => simp [weight_nil]
  | cons c cs ih => rw [weight_cons, Nat.add_eq_zero_iff, ih, List.forall_mem_cons]

/-- Trimming takes weight off. -/
theorem weight_trimEnd (p : Char → Bool) (cs : List Char) :
    weight w (trimEnd p cs) ≤ weight w cs := by
  obtain ⟨tail, he, -⟩ := exists_trimEnd p cs
  have hw := congrArg (weight w) he
  rw [weight_append] at hw
  omega

section

variable (hw : w ' ' ≤ w '\t')

include hw

/-- A gap weighs a space at least. -/
theorem weight_gap {gap : List Char} (h : Gap gap) : w ' ' ≤ weight w gap := by
  obtain ⟨hne, hblanks⟩ := h
  cases gap with
  | nil => exact absurd rfl hne
  | cons c gap =>
    have hc := hblanks c List.mem_cons_self
    simp only [isBlank, Bool.or_eq_true, beq_iff_eq] at hc
    rw [weight_cons]
    rcases hc with rfl | rfl <;> omega

/-- Making gaps single spaces adds no weight. -/
theorem weight_squeezed {cs ds : List Char} (h : Squeezed cs ds) :
    weight w ds ≤ weight w cs := by
  induction h with
  | nil => exact Nat.le_refl _
  | keep c _ ih =>
    rw [weight_cons, weight_cons]
    exact Nat.add_le_add_left ih _
  | gap hgap _ ih =>
    have hle := weight_gap hw hgap
    rw [weight_cons, weight_append]
    omega

/-- The canonical line of a node weighs no more than a line that denotes it. -/
theorem weight_toText {l : List Char} {node : Node} (h : Denotes l node) :
    weight w node.toText.toList ≤ weight w l := by
  obtain ⟨blanks, body, tail, rfl, -, -, hsqueezed⟩ := respaced_toText h
  have hle := weight_squeezed hw hsqueezed
  rw [weight_append, weight_append]
  omega

end

end RcScript
