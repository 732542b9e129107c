import LabelAtlas.Proofs.Characters

/-! Where the code of a line ends. A line in which every quotation is closed is put together from
pieces, and all of it is code. Any line is such a line, or ends inside a quotation that follows one,
or has a semicolon behind one, and there its code ends. -/
namespace LabelAtlas.Source

open Text

/-- The last character is a letter or digit. -/
def endsAlnum (t : Text) : Bool :=
  t.getLast?.any isAlnum

/-- A text put together from plain stretches, quotations that are closed, and apostrophes behind a
letter or digit. -/
inductive IsClosed : Text → Prop where
  | empty : IsClosed []
  | plain {t u : Text} (closed : IsClosed t)
      (unmarked : ∀ c ∈ u, c ≠ .scalar '"' ∧ c ≠ .scalar '\'' ∧ c ≠ .scalar ';') :
    IsClosed (t ++ u)
  | double {t u : Text} (closed : IsClosed t) (inside : .scalar '"' ∉ u) :
    IsClosed (t ++ .scalar '"' :: (u ++ [.scalar '"']))
  | single {t u : Text} (closed : IsClosed t) (apart : endsAlnum t = false)
      (inside : .scalar '\'' ∉ u) :
    IsClosed (t ++ .scalar '\'' :: (u ++ [.scalar '\'']))
  | apostrophe {t : Text} (closed : IsClosed t) (behind : endsAlnum t = true) :
    IsClosed (t ++ [.scalar '\''])

/-- A text that ends inside a quotation. -/
inductive IsOpen (q : CodePoint) : Text → Prop where
  | intro {t u : Text} (closed : IsClosed t) (opens : opensQuote (endsAlnum t) q = true)
      (inside : q ∉ u) : IsOpen q (t ++ q :: u)

/-! ## Reading a line -/

theorem endsAlnum_append (t u : Text) :
    endsAlnum (t ++ u) = u.getLast?.elim (endsAlnum t) isAlnum := by
  rw [endsAlnum, List.getLast?_append]
  cases u.getLast? <;> rfl

theorem not_isAlnum_of_opensQuote {afterAlnum : Bool} {q : CodePoint}
    (opens : opensQuote afterAlnum q = true) : isAlnum q = false := by
  simp only [opensQuote, Bool.or_eq_true, Bool.and_eq_true, decide_eq_true_eq] at opens
  rcases opens with rfl | ⟨rfl, -⟩ <;> decide +kernel

theorem codeFrom_inside {q : CodePoint} {u : Text} (inside : q ∉ u) (afterAlnum : Bool) :
    codeFrom (some q) afterAlnum u = u := by
  induction u generalizing afterAlnum with
  | nil => rfl
  | cons c u ih =>
    obtain ⟨other, rest⟩ := List.ne_and_not_mem_of_not_mem_cons inside
    rw [codeFrom, if_neg (Ne.symm other), ih rest]

theorem codeFrom_quotation {q : CodePoint} {u : Text} (inside : q ∉ u) (afterAlnum : Bool)
    (rest : Text) :
    codeFrom (some q) afterAlnum (u ++ q :: rest) = u ++ q :: codeFrom none (isAlnum q) rest := by
  induction u generalizing afterAlnum with
  | nil => rw [List.nil_append, codeFrom, if_pos rfl, List.nil_append]
  | cons c u ih =>
    obtain ⟨other, rest⟩ := List.ne_and_not_mem_of_not_mem_cons inside
    rw [List.cons_append, codeFrom, if_neg (Ne.symm other), ih rest, List.cons_append]

theorem codeFrom_opening {afterAlnum : Bool} {q : CodePoint}
    (opens : opensQuote afterAlnum q = true) (rest : Text) :
    codeFrom none afterAlnum (q :: rest) = q :: codeFrom (some q) false rest := by
  rw [codeFrom, if_pos opens, not_isAlnum_of_opensQuote opens]

variable {t : Text}

theorem IsClosed.quoted {q : CodePoint} {u : Text} (closed : IsClosed t)
    (opens : opensQuote (endsAlnum t) q = true) (inside : q ∉ u) :
    IsClosed (t ++ q :: (u ++ [q])) := by
  simp only [opensQuote, Bool.or_eq_true, Bool.and_eq_true, decide_eq_true_eq,
    Bool.not_eq_true'] at opens
  rcases opens with rfl | ⟨rfl, apart⟩
  · exact closed.double inside
  · exact closed.single apart inside

/-- A closed text is code, and what follows it is read as outside of quotations. -/
theorem IsClosed.code_append (closed : IsClosed t) (rest : Text) :
    code (t ++ rest) = t ++ codeFrom none (endsAlnum t) rest := by
  have quotation {t u : Text} {q : CodePoint} (opens : opensQuote (endsAlnum t) q = true)
      (inside : q ∉ u)
      (ih : ∀ rest, code (t ++ rest) = t ++ codeFrom none (endsAlnum t) rest) (rest : Text) :
      code (t ++ q :: (u ++ [q]) ++ rest) =
        t ++ q :: (u ++ [q]) ++ codeFrom none (endsAlnum (t ++ q :: (u ++ [q]))) rest := by
    have last : endsAlnum (t ++ q :: (u ++ [q])) = isAlnum q := by
      rw [← List.cons_append, ← List.append_assoc, endsAlnum, List.getLast?_concat]
      rfl
    have whole : t ++ q :: (u ++ [q]) ++ rest = t ++ q :: (u ++ q :: rest) := by simp
    rw [whole, ih, codeFrom_opening opens, codeFrom_quotation inside, last]
    simp
  induction closed generalizing rest with
  | empty => rfl
  | plain closed unmarked ih =>
    rw [List.append_assoc, ih, codeFrom_plain_append _ _ unmarked, endsAlnum_append,
      List.append_assoc]
  | double closed inside ih =>
    exact quotation (by simp [opensQuote]) inside ih rest
  | single closed apart inside ih =>
    exact quotation (by simp [opensQuote, apart]) inside ih rest
  | apostrophe closed behind ih =>
    have kept : opensQuote true (.scalar '\'') = false := by decide
    rw [List.append_assoc, ih, behind, endsAlnum_append, List.getLast?_singleton, Option.elim_some,
      List.singleton_append, codeFrom, kept, if_neg Bool.false_ne_true, if_neg (by decide),
      List.append_assoc, List.singleton_append]

theorem IsClosed.code_eq (closed : IsClosed t) : code t = t := by
  have whole := closed.code_append []
  rwa [List.append_nil, codeFrom, List.append_nil] at whole

theorem IsClosed.code_comment (closed : IsClosed t) (comment : Text) :
    code (t ++ .scalar ';' :: comment) = t := by
  have ends (afterAlnum : Bool) : codeFrom none afterAlnum (.scalar ';' :: comment) = [] := by
    have outside : opensQuote afterAlnum (.scalar ';') = false := by
      cases afterAlnum <;> decide
    rw [codeFrom, outside, if_neg Bool.false_ne_true, if_pos rfl]
  rw [closed.code_append, ends, List.append_nil]

theorem IsOpen.code_eq {q : CodePoint} (isOpen : IsOpen q t) : code t = t := by
  obtain ⟨closed, opens, inside⟩ := isOpen
  rw [closed.code_append, codeFrom_opening opens, codeFrom_inside inside]

/-! ## One character more -/

theorem IsClosed.concat (closed : IsClosed t) (c : CodePoint) :
    IsClosed (t ++ [c]) ∨ IsOpen c (t ++ [c]) ∨ c = .scalar ';' := by
  by_cases opens : opensQuote (endsAlnum t) c = true
  · exact .inr (.inl (.intro closed opens List.not_mem_nil))
  · by_cases comment : c = .scalar ';'
    · exact .inr (.inr comment)
    · left
      simp only [opensQuote, Bool.or_eq_true, Bool.and_eq_true, decide_eq_true_eq,
        Bool.not_eq_true', not_or, not_and, Bool.not_eq_false] at opens
      obtain ⟨double, single⟩ := opens
      by_cases apostrophe : c = .scalar '\''
      · rw [apostrophe]
        exact closed.apostrophe (single apostrophe)
      · apply closed.plain
        intro d member
        rw [List.mem_singleton.mp member]
        exact ⟨double, apostrophe, comment⟩

theorem IsOpen.concat {q : CodePoint} (isOpen : IsOpen q t) (c : CodePoint) :
    IsClosed (t ++ [c]) ∨ IsOpen q (t ++ [c]) := by
  obtain ⟨closed, opens, inside⟩ := isOpen
  rename_i u v
  rw [List.append_assoc, List.cons_append]
  by_cases same : c = q
  · rw [same]
    exact .inl (closed.quoted opens inside)
  · right
    apply IsOpen.intro closed opens
    intro member
    rcases List.mem_append.mp member with earlier | here
    · exact inside earlier
    · exact same (List.mem_singleton.mp here).symm

/-- What a text can be: closed, open, or closed as far as a semicolon. -/
theorem closed_or_open_or_cut (t : Text) :
    IsClosed t ∨ (∃ q, IsOpen q t) ∨
      ∃ front comment, IsClosed front ∧ t = front ++ .scalar ';' :: comment := by
  induction t using List.reverseRecOn with
  | nil => exact .inl .empty
  | append_singleton t c ih =>
    rcases ih with closed | ⟨q, isOpen⟩ | ⟨front, comment, closed, rfl⟩
    · rcases closed.concat c with more | opened | rfl
      · exact .inl more
      · exact .inr (.inl ⟨c, opened⟩)
      · exact .inr (.inr ⟨t, [], closed, rfl⟩)
    · rcases isOpen.concat c with closed | more
      · exact .inl closed
      · exact .inr (.inl ⟨q, more⟩)
    · exact .inr (.inr ⟨front, comment ++ [c], closed, by simp⟩)

/-- All of a closed text is code, and they are the texts behind which a semicolon starts a comment
whatever it says. The code of any text is a start of it, is code by itself, and if it is not the
whole text a semicolon follows it. -/
theorem code_of_pieces (line : Text) :
    (IsClosed line → code line = line) ∧
    (IsClosed line ↔ ∀ comment, code (line ++ .scalar ';' :: comment) = line) ∧
    code line <+: line ∧ code (code line) = code line ∧
    (code line = line ∨ ∃ comment, line = code line ++ .scalar ';' :: comment) := by
  have closed_of_comment (every : ∀ comment, code (line ++ .scalar ';' :: comment) = line) :
      IsClosed line := by
    rcases closed_or_open_or_cut line with closed | ⟨q, isOpen⟩ | ⟨front, comment, closed, rfl⟩
    · exact closed
    · -- In a quotation the semicolon would be code too.
      have kept : code (line ++ [.scalar ';']) = line ++ [.scalar ';'] := by
        rcases isOpen.concat (.scalar ';') with closed | more
        · exact closed.code_eq
        · exact more.code_eq
      rw [every []] at kept
      simp at kept
    · have cut := every []
      rw [List.append_assoc, List.cons_append, closed.code_comment] at cut
      simp at cut
  refine ⟨IsClosed.code_eq, ⟨fun closed => closed.code_comment, closed_of_comment⟩, ?_⟩
  rcases closed_or_open_or_cut line with closed | ⟨q, isOpen⟩ | ⟨front, comment, closed, rfl⟩
  · rw [closed.code_eq, closed.code_eq]
    exact ⟨List.prefix_rfl, rfl, .inl rfl⟩
  · rw [isOpen.code_eq, isOpen.code_eq]
    exact ⟨List.prefix_rfl, rfl, .inl rfl⟩
  · rw [closed.code_comment]
    exact ⟨List.prefix_append _ _, closed.code_eq, .inr ⟨comment, rfl⟩⟩

/-- A register with an apostrophe, and semicolons and other marks in both kinds of quotation. -/
theorem code_of_pieces_register :
    let line : Text := "ex af,af' \"a;'b\" ';\"'"
    IsClosed line ∧ code line = line ∧
      code (line ++ .scalar ';' :: " it's \"open") = line := by
  intro line
  have plain : IsClosed ("ex af,af" : Text) := IsClosed.empty.plain (by decide)
  have register : IsClosed ("ex af,af' " : Text) :=
    (plain.apostrophe (by decide +kernel)).plain (u := " ") (by decide)
  have double : IsClosed ("ex af,af' \"a;'b\" " : Text) :=
    (register.double (u := "a;'b") (by decide)).plain (u := " ") (by decide)
  have closed : IsClosed line := double.single (u := ";\"") (by decide +kernel) (by decide)
  have pieces := code_of_pieces line
  exact ⟨closed, pieces.1 closed, pieces.2.1.mp closed _⟩

end LabelAtlas.Source
