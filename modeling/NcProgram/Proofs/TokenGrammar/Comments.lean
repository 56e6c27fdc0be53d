import NcProgram.Proofs.TokenGrammar.Acceptance

namespace NcProgram

open Computability

namespace TokenGrammar

/-- The comments and line ends of a word. -/
def marks (w : List TokenKind) : List TokenKind :=
  w.filter fun k => k = .comment || k = .newline

/-- A line end comes between any two comments. -/
def CommentsApart (w : List TokenKind) : Prop :=
  (marks w).IsChain fun a b => a = .newline ∨ b = .newline

theorem marks_append (u v : List TokenKind) : marks (u ++ v) = marks u ++ marks v :=
  List.filter_append u v

theorem marks_newline_cons (w : List TokenKind) : marks (.newline :: w) = .newline :: marks w :=
  rfl

theorem marks_eq_nil {w : List TokenKind} (h : w ∈ words fun k => k ≠ .newline ∧ k ≠ .comment) :
    marks w = [] := by
  refine List.filter_eq_nil_iff.mpr fun k hk => ?_
  obtain ⟨hnewline, hcomment⟩ := h k hk
  simp [hnewline, hcomment]

theorem marks_of_mem_body {w : List TokenKind} (h : w ∈ body) : marks w = [] := by
  refine marks_eq_nil fun k hk => ?_
  obtain ⟨hends, hcomment⟩ := body_le_words h k hk
  refine ⟨?_, hcomment⟩
  rintro rfl
  cases hends

theorem marks_of_mem_comment {w : List TokenKind} (h : w ∈ comment) : marks w = [.comment] := by
  obtain ⟨_, rfl, v, hv, rfl⟩ := Language.mem_mul.mp h
  have htrivia : trivia∗ ≤ words fun k => k ≠ .newline ∧ k ≠ .comment :=
    kstar_le_words (trivia_le_words (by decide) (by decide))
  rw [marks_append, marks_eq_nil (htrivia hv)]
  rfl

theorem marks_of_mem_percent {w : List TokenKind} (h : w ∈ optional (symbol .percent)) :
    marks w = [] :=
  marks_eq_nil (optional_le_words (symbol_le_words (by decide)) h)

theorem commentsApart_append_newline {u v : List TokenKind} :
    CommentsApart (u ++ [.newline] ++ v) ↔ CommentsApart u ∧ CommentsApart v := by
  simp [CommentsApart, marks_append, marks_newline_cons, List.isChain_append, List.isChain_cons]

theorem optional_comment_le : optional comment ≤ comment∗ :=
  add_le one_le_kstar le_kstar

theorem line_optional_le : line (optional comment) ≤ line comment∗ :=
  mul_le_mul_right optional_comment_le body

theorem commentsApart_of_mem_line {w : List TokenKind} (h : w ∈ line (optional comment)) :
    CommentsApart w := by
  obtain ⟨u, hu, v, hv, rfl⟩ := Language.mem_mul.mp h
  rw [CommentsApart, marks_append, marks_of_mem_body hu, List.nil_append]
  rcases mem_optional_iff.mp hv with rfl | hv
  · exact List.isChain_nil
  · rw [marks_of_mem_comment hv]
    exact List.isChain_singleton _

theorem mem_line_optional {w : List TokenKind} (h : w ∈ line comment∗) (hapart : CommentsApart w) :
    w ∈ line (optional comment) := by
  obtain ⟨u, hu, v, hv, rfl⟩ := Language.mem_mul.mp h
  refine Language.append_mem_mul hu (mem_optional_iff.mpr ?_)
  obtain ⟨comments, rfl, hcomments⟩ := Language.mem_kstar.mp hv
  match comments, hcomments with
  | [], _ => exact .inl rfl
  | [c], hcomments => exact .inr (by simpa using hcomments)
  | c :: d :: rest, hcomments =>
      have hc := marks_of_mem_comment (hcomments c (by simp))
      have hd := marks_of_mem_comment (hcomments d (by simp))
      simp [CommentsApart, marks_append, marks_of_mem_body hu, hc, hd] at hapart

theorem lines_optional_le : lines (optional comment) ≤ lines comment∗ :=
  mul_le_mul' (kstar_mono (mul_le_mul_left line_optional_le _)) line_optional_le

theorem mem_lines_optional_iff {w : List TokenKind} :
    w ∈ lines (optional comment) ↔ w ∈ lines comment∗ ∧ CommentsApart w := by
  constructor
  · intro h
    refine ⟨lines_optional_le h, ?_⟩
    suffices hle : lines (optional comment) ≤ ({w | CommentsApart w} : Language TokenKind) from hle h
    refine kstar_mul_le (fun w => commentsApart_of_mem_line) ?_
    intro w hw
    obtain ⟨_, hline, v, hv, rfl⟩ := Language.mem_mul.mp hw
    obtain ⟨u, hu, _, rfl, rfl⟩ := Language.mem_mul.mp hline
    exact commentsApart_append_newline.mpr ⟨commentsApart_of_mem_line hu, hv⟩
  · rintro ⟨h, hapart⟩
    suffices hle : lines comment∗ ≤
        ({w | CommentsApart w → w ∈ lines (optional comment)} : Language TokenKind) from hle h hapart
    refine kstar_mul_le (fun w hw hapart => line_le_lines _ (mem_line_optional hw hapart)) ?_
    intro w hw hapart
    obtain ⟨_, hline, v, hv, rfl⟩ := Language.mem_mul.mp hw
    obtain ⟨u, hu, _, rfl, rfl⟩ := Language.mem_mul.mp hline
    obtain ⟨hleft, hright⟩ := commentsApart_append_newline.mp hapart
    exact terminated_mul_lines_le _ (Language.append_mem_mul
      (Language.append_mem_mul (mem_line_optional hu hleft) rfl) (hv hright))

theorem mem_rule_optional_iff (k : Rule) {w : List TokenKind} :
    w ∈ rule (optional comment) k ↔ w ∈ rule comment∗ k ∧ CommentsApart w := by
  have hpercents {p u q : List TokenKind} (hp : p ∈ optional (symbol .percent))
      (hq : q ∈ optional (symbol .percent)) : CommentsApart (p ++ (u ++ q)) ↔ CommentsApart u := by
    rw [CommentsApart, marks_append, marks_append, marks_of_mem_percent hp, marks_of_mem_percent hq,
      List.nil_append, List.append_nil, CommentsApart]
  cases k with
  | snippet => exact mem_lines_optional_iff
  | line =>
      exact ⟨fun h => ⟨line_optional_le h, commentsApart_of_mem_line h⟩,
        fun ⟨h, hapart⟩ => mem_line_optional h hapart⟩
  | file =>
      constructor
      · intro h
        obtain ⟨p, hp, _, hrest, rfl⟩ := Language.mem_mul.mp h
        obtain ⟨u, hu, q, hq, rfl⟩ := Language.mem_mul.mp hrest
        obtain ⟨hu, hapart⟩ := mem_lines_optional_iff.mp hu
        exact ⟨Language.append_mem_mul hp (Language.append_mem_mul hu hq),
          (hpercents hp hq).mpr hapart⟩
      · rintro ⟨h, hapart⟩
        obtain ⟨p, hp, _, hrest, rfl⟩ := Language.mem_mul.mp h
        obtain ⟨u, hu, q, hq, rfl⟩ := Language.mem_mul.mp hrest
        exact Language.append_mem_mul hp (Language.append_mem_mul
          (mem_lines_optional_iff.mpr ⟨hu, (hpercents hp hq).mp hapart⟩) hq)

/-- A rule reads the tokens whose classes in front of the first end of the program are a word of its
grammar, save that a line may hold more than one comment. -/
theorem accepted_token_grammar (k : Rule) (ts : List Token) :
    (k.Accepts ts ↔ kindsBeforeEnd ts ∈ rule comment∗ k) ∧
      (kindsBeforeEnd ts ∈ rule (optional comment) k ↔
        k.Accepts ts ∧ CommentsApart (kindsBeforeEnd ts)) := by
  refine ⟨accepts_iff k, ?_⟩
  rw [accepts_iff, mem_rule_optional_iff]

theorem second_comment_accepted :
    let ts : List Token := [⟨.comment, ";a", 0, 2, 1, 1⟩, ⟨.comment, ";b", 2, 4, 1, 1⟩]
    Rule.line.Accepts ts ∧ kindsBeforeEnd ts ∉ rule (optional comment) .line := by
  intro ts
  have hkinds : kindsBeforeEnd ts = [.comment, .comment] := by decide
  constructor
  · rw [accepts_iff, hkinds]
    have hcomment : [TokenKind.comment] ∈ comment :=
      Language.append_mem_mul (mem_symbol .comment) (Language.nil_mem_kstar trivia)
    have hcomments : [[TokenKind.comment], [.comment]].flatten ∈ comment∗ :=
      Language.join_mem_kstar (by simpa using hcomment)
    exact Language.append_mem_mul (one_le_body rfl) hcomments
  · rw [hkinds, mem_rule_optional_iff]
    rintro ⟨-, hapart⟩
    simp [CommentsApart, marks] at hapart

end TokenGrammar

end NcProgram
