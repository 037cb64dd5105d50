import Parlance.Proofs.Json.Scalars

/-!
# Literals are read before any tail

A string literal is read to its closing quote, piece by piece. Where a code of four digits is cut
short by the quote, the reader looks past it to tell whether four bytes are left; but it fails in
either case, and failures are not told apart here. So what a literal is read to depends on what it
encloses and not on what stands behind it.

Each piece of a literal that is read leaves the rest of what the literal encloses, which is
shorter. This is what the induction is on, as the bound on the number of pieces depends on the
whole text.
-/

namespace Parlance.Json

/-! ## Pieces -/

/-- Behind characters that begin no escape, the inside of a literal goes on. By induction over those
characters, each of which stands for itself. -/
theorem Enclosed.of_append {before body : List Char} (plain : '\\' ∉ before)
    (enclosed : Enclosed (before ++ body)) : Enclosed body := by
  induction before with
  | nil => exact enclosed
  | cons c others inductionHypothesis =>
    obtain ⟨unescaped, later⟩ := not_or.mp fun member => plain (List.mem_cons.mpr member)
    refine inductionHypothesis later ?_
    rw [List.cons_append] at enclosed
    generalize others ++ body = rest at enclosed
    cases enclosed with
    | character _ _ more => exact more
    | escaped _ => exact absurd rfl unescaped

/-- Characters that are read as hexadecimal digits are such digits. The number is put together from
the values of all of them, so each has one. -/
theorem isSome_hexValue_of_mapM {text : List Char} (read : (text.mapM hexValue).isSome) :
    ∀ c ∈ text, (hexValue c).isSome := by
  induction text with
  | nil => nofun
  | cons c rest inductionHypothesis =>
    rw [List.mapM_cons] at read
    cases first : hexValue c with
    | none => simp [first] at read
    | some digit =>
      cases others : rest.mapM hexValue with
      | none => simp [first, others] at read
      | some digits =>
        rw [others] at inductionHypothesis
        exact List.forall_mem_cons.mpr ⟨by simp [first], inductionHypothesis rfl⟩

/-- A part of a string literal, at the beginning of the rest `body` of the literal: it is read
to the same value up to the same place in the literal whatever stands behind that, or to no
value. -/
inductive ReadsWithin {α : Type} (read : List Char → Except Fault (α × List Char))
    (body : List Char) : Prop where
  | value (value : α) (left : List Char) (enclosed : Enclosed left)
    (within : left.length ≤ body.length)
    (reads : ∀ tail, read (body ++ '"' :: tail) = .ok (value, left ++ '"' :: tail))
  | fault (fails : ∀ tail, ∃ fault, read (body ++ '"' :: tail) = .error fault)

/-- The four digits of a code are looked for in the literal only, because the quote behind it is no
digit. -/
theorem readHex_within {body : List Char} (enclosed : Enclosed body) :
    ReadsWithin readHex body := by
  by_cases long : 4 ≤ body.length
  · have taken (tail : List Char) : (body ++ tail).take 4 = body.take 4 :=
      List.take_append_of_le_length long
    have dropped (tail : List Char) : (body ++ tail).drop 4 = body.drop 4 ++ tail :=
      List.drop_append_of_le_length long
    have enough (tail : List Char) : ¬ Text.byteLength (body ++ tail) < 4 := by
      have characters := Text.length_le_byteLength body
      rw [Text.byteLength_append]
      omega
    cases read : (body.take 4).mapM hexValue with
    | none =>
      refine .fault fun tail => ?_
      rw [readHex, if_neg (enough _), taken, read]
      exact ⟨_, rfl⟩
    | some digits =>
      have hex := isSome_hexValue_of_mapM (by rw [read]; rfl)
      have plain : '\\' ∉ body.take 4 := fun member => absurd (hex _ member) (by decide)
      refine .value (digits.foldl (fun value digit => 16 * value + digit) 0) (body.drop 4)
        (.of_append plain (by rwa [List.take_append_drop])) (by simp) fun tail => ?_
      rw [readHex, if_neg (enough _), taken, read, dropped]
  · -- The next four characters include the closing quote, so they are not four digits, whether
    -- or not there are four bytes.
    refine .fault fun tail => ?_
    have quoted : '"' ∈ (body ++ '"' :: tail).take 4 := by
      rw [List.take_append]
      refine List.mem_append_right _ ?_
      obtain ⟨more, room⟩ : ∃ more, 4 - body.length = more + 1 := ⟨3 - body.length, by omega⟩
      rw [room]
      exact List.mem_cons_self
    rw [readHex]
    split
    · exact ⟨_, rfl⟩
    · cases read : ((body ++ '"' :: tail).take 4).mapM hexValue with
      | none => exact ⟨_, rfl⟩
      | some digits =>
        have hex := isSome_hexValue_of_mapM (by rw [read]; rfl) '"' quoted
        exact absurd hex (by decide)

/-- Behind a leading surrogate a code is read as the trailing one. Both denote one character when
the code is in the range of trailing surrogates, and it is a fault otherwise. -/
theorem readTrailing_code {text behind : List Char} {code : Nat} (leading : Nat)
    (hex : readHex text = .ok (code, behind)) :
    readTrailing leading ('\\' :: 'u' :: text) =
      if 0xDC00 ≤ code ∧ code ≤ 0xDFFF then
        .ok (Char.ofNat (0x10000 + (leading - 0xD800) * 0x400 + (code - 0xDC00)), behind)
      else .error ⟨.malformed, behind⟩ := by
  simp [readTrailing, hex]

/-- A fault among the digits of the trailing code is a fault of the pair. -/
theorem readTrailing_code_fault {text : List Char} {fault : Fault} (leading : Nat)
    (hex : readHex text = .error fault) :
    readTrailing leading ('\\' :: 'u' :: text) = .error fault := by
  simp [readTrailing, hex]

/-- The second code of a pair is looked for in the literal only. Either a backslash and a `u`
follow, and the four digits are read in the literal, or nothing is read at all. -/
theorem readTrailing_within (leading : Nat) {body : List Char} (enclosed : Enclosed body) :
    ReadsWithin (readTrailing leading) body := by
  have unescaped {c : Char} (other : c ≠ '\\') (text : List Char) :
      readTrailing leading (c :: text) = .error ⟨.malformed, text⟩ := if_pos other
  cases enclosed with
  | nil => exact .fault fun tail => ⟨_, unescaped (by decide) tail⟩
  | @character c rest _ other _ => exact .fault fun tail => ⟨_, unescaped other _⟩
  | @escaped d rest more =>
    by_cases coded : d = 'u'
    · subst coded
      cases readHex_within more with
      | value code left enclosed within hex =>
        by_cases second : 0xDC00 ≤ code ∧ code ≤ 0xDFFF
        · refine .value (Char.ofNat (0x10000 + (leading - 0xD800) * 0x400 + (code - 0xDC00))) left
            enclosed (by simp only [List.length_cons]; omega) fun tail => ?_
          rw [List.cons_append, List.cons_append, readTrailing_code leading (hex tail),
            if_pos second]
        · refine .fault fun tail => ?_
          rw [List.cons_append, List.cons_append, readTrailing_code leading (hex tail),
            if_neg second]
          exact ⟨_, rfl⟩
      | fault fails =>
        refine .fault fun tail => ?_
        obtain ⟨fault, hex⟩ := fails tail
        exact ⟨fault, readTrailing_code_fault leading hex⟩
    · have uncoded (text : List Char) : readTrailing leading ('\\' :: d :: text) =
          .error ⟨.malformed, text⟩ := if_pos coded
      exact .fault fun tail => ⟨_, uncoded _⟩

/-- The piece of a string literal at the beginning of the rest `body` of the literal. It is the
same whatever stands behind the literal, up to the faults that it tells. -/
inductive PieceWithin (body : List Char) : Prop where
  | close (ends : body = [])
  | character (value : Char) (left : List Char) (enclosed : Enclosed left)
    (shorter : left.length < body.length)
    (reads : ∀ tail, readPiece (body ++ '"' :: tail) = .character value (left ++ '"' :: tail))
  | surrogate (left : List Char) (enclosed : Enclosed left) (shorter : left.length < body.length)
    (reads : ∀ tail, ∃ fault,
      readPiece (body ++ '"' :: tail) = .surrogate fault (left ++ '"' :: tail))
  | broken (breaks : ∀ tail, ∃ reading skipping,
      readPiece (body ++ '"' :: tail) = .broken reading skipping)

/-- A backslash with the letter `u` has the digits of a code behind it. A leading surrogate needs a
trailing one, and a trailing one alone denotes nothing. -/
theorem readPiece_code (text : List Char) : readPiece ('\\' :: 'u' :: text) =
    match readHex text with
    | .error fault => .broken fault fault
    | .ok (code, behind) =>
      if 0xDC00 ≤ code ∧ code ≤ 0xDFFF then .surrogate ⟨.malformed, behind⟩ behind
      else if 0xD800 ≤ code ∧ code ≤ 0xDBFF then
        match readTrailing code behind with
        | .ok (c, rest) => .character c rest
        | .error fault => .surrogate fault behind
      else .character (Char.ofNat code) behind := rfl

/-- A backslash with a letter of JSON denotes the character of this letter. -/
theorem readPiece_letter {c value : Char} (known : escapedLetter c = some value)
    (text : List Char) : readPiece ('\\' :: c :: text) = .character value text := by
  have uncoded : c ≠ 'u' := by
    rintro rfl
    cases known
  rw [readPiece] <;> simp_all

/-- A backslash with any other character is a fault behind this character. -/
theorem readPiece_unknown {c : Char} (uncoded : c ≠ 'u') (unknown : escapedLetter c = none)
    (text : List Char) :
    readPiece ('\\' :: c :: text) = .broken ⟨.malformed, text⟩ ⟨.malformed, text⟩ := by
  rw [readPiece] <;> simp_all

/-- A character that is neither a quote nor a backslash denotes itself. Control characters are
faults, which are told apart for reading and for skipping. -/
theorem readPiece_character {c : Char} (unquoted : c ≠ '"') (unescaped : c ≠ '\\')
    (text : List Char) :
    readPiece (c :: text) =
      if c.toNat < 0x20 then .broken ⟨.malformed, text⟩ ⟨.malformed, c :: text⟩
      else .character c text := by
  rw [readPiece] <;> simp_all

/-- A code in a literal is the same piece whatever stands behind the literal. The code itself is
read in the literal. A leading half of a pair needs another code, which is read there too or is at
fault there. -/
theorem readPiece_code_within {body : List Char} (enclosed : Enclosed body) :
    PieceWithin ('\\' :: 'u' :: body) := by
  cases readHex_within enclosed with
  | fault fails =>
    refine .broken fun tail => ?_
    obtain ⟨fault, hex⟩ := fails tail
    rw [List.cons_append, List.cons_append, readPiece_code, hex]
    exact ⟨fault, fault, rfl⟩
  | value code left enclosed within hex =>
    have shorter : left.length < ('\\' :: 'u' :: body).length := by
      simp only [List.length_cons]
      omega
    by_cases second : 0xDC00 ≤ code ∧ code ≤ 0xDFFF
    · refine .surrogate left enclosed shorter fun tail => ?_
      rw [List.cons_append, List.cons_append, readPiece_code, hex]
      exact ⟨_, if_pos second⟩
    by_cases first : 0xD800 ≤ code ∧ code ≤ 0xDBFF
    · cases readTrailing_within code enclosed with
      | value paired behind closed inside trailing =>
        refine .character paired behind closed (by omega) fun tail => ?_
        rw [List.cons_append, List.cons_append, readPiece_code, hex]
        simp only [if_neg second, if_pos first, trailing]
      | fault fails =>
        refine .surrogate left enclosed shorter fun tail => ?_
        obtain ⟨fault, trailing⟩ := fails tail
        rw [List.cons_append, List.cons_append, readPiece_code, hex]
        simp only [if_neg second, if_pos first, trailing]
        exact ⟨fault, rfl⟩
    · refine .character (Char.ofNat code) left enclosed shorter fun tail => ?_
      rw [List.cons_append, List.cons_append, readPiece_code, hex]
      simp only [if_neg second, if_neg first]

/-- A piece of a literal is the same whatever stands behind the literal, since the closing quote
ends every piece in front of it. -/
theorem readPiece_within {body : List Char} (enclosed : Enclosed body) : PieceWithin body := by
  cases enclosed with
  | nil => exact .close rfl
  | @character c rest unquoted unescaped more =>
    by_cases control : c.toNat < 0x20
    · refine .broken fun tail => ?_
      rw [List.cons_append, readPiece_character unquoted unescaped, if_pos control]
      exact ⟨_, _, rfl⟩
    · refine .character c rest more (Nat.lt_succ_self _) fun tail => ?_
      rw [List.cons_append, readPiece_character unquoted unescaped, if_neg control]
  | @escaped c rest more =>
    by_cases coded : c = 'u'
    · subst coded
      exact readPiece_code_within more
    cases known : escapedLetter c with
    | none =>
      refine .broken fun tail => ?_
      rw [List.cons_append, List.cons_append, readPiece_unknown coded known]
      exact ⟨_, _, rfl⟩
    | some value =>
      refine .character value rest more (by simp only [List.length_cons]; omega) fun tail => ?_
      rw [List.cons_append, List.cons_append, readPiece_letter known]

/-! ## Literals -/

/-- Reading a literal from the rest `body` of it, with a bound that suffices, gives the same
whatever stands behind it. Of the fault found so far, if there is one, only that matters. -/
theorem readLiteral_within {body : List Char} (enclosed : Enclosed body) (marred : Bool)
    (value : List Char) : ∃ (document : Document) (closed : Bool), ∀ spoilt fuel tail,
      spoilt.isSome = marred → body.length < fuel →
      (readLiteral spoilt value fuel (body ++ '"' :: tail)).1.blurred = document ∧
        (readLiteral spoilt value fuel (body ++ '"' :: tail)).2 =
          if closed then some tail else none := by
  induction size : body.length using Nat.strong_induction_on generalizing body marred value with
  | _ length inductionHypothesis =>
  subst size
  cases readPiece_within enclosed with
  | close ends =>
    subst ends
    refine ⟨if marred then .unusable .blurred none else .text (String.ofList value.reverse), true,
      fun spoilt fuel tail mars enough => ?_⟩
    obtain ⟨fuel, rfl⟩ := Nat.exists_eq_succ_of_ne_zero (Nat.ne_zero_of_lt enough)
    cases spoilt <;> subst mars <;> exact ⟨rfl, rfl⟩
  | character c left enclosed shorter reads =>
    obtain ⟨document, closed, later⟩ :=
      inductionHypothesis _ shorter enclosed marred (c :: value) rfl
    refine ⟨document, closed, fun spoilt fuel tail mars enough => ?_⟩
    obtain ⟨fuel, rfl⟩ := Nat.exists_eq_succ_of_ne_zero (Nat.ne_zero_of_lt enough)
    rw [readLiteral, reads]
    exact later spoilt fuel tail mars (by omega)
  | surrogate left enclosed shorter reads =>
    -- From here on there is a fault, and later ones do not replace it.
    obtain ⟨document, closed, later⟩ := inductionHypothesis _ shorter enclosed true value rfl
    refine ⟨document, closed, fun spoilt fuel tail mars enough => ?_⟩
    obtain ⟨fuel, rfl⟩ := Nat.exists_eq_succ_of_ne_zero (Nat.ne_zero_of_lt enough)
    obtain ⟨fault, reads⟩ := reads tail
    rw [readLiteral, reads]
    exact later _ fuel tail rfl (by omega)
  | broken breaks =>
    refine ⟨.unusable .blurred (some .blurred), false, fun spoilt fuel tail mars enough => ?_⟩
    obtain ⟨fuel, rfl⟩ := Nat.exists_eq_succ_of_ne_zero (Nat.ne_zero_of_lt enough)
    obtain ⟨reading, skipping, reads⟩ := breaks tail
    rw [readLiteral, reads]
    exact ⟨rfl, rfl⟩

/-- A literal that is closed is read the same whatever stands behind it. Its inside is read with the
rounds that its length needs, however long the text is. -/
theorem readString_settled {body : List Char} (enclosed : Enclosed body) :
    Settled (fun _ => True) (fun tail => readString (body ++ '"' :: tail)) [] := by
  obtain ⟨document, closed, reads⟩ := readLiteral_within enclosed false []
  refine ⟨document, if closed then some [] else none, ?_, fun tail _ => ?_⟩
  · cases closed <;> simp
  · have enough : body.length < (body ++ '"' :: tail).length + 1 := by
      rw [List.length_append]
      omega
    have settled := reads none _ tail rfl enough
    refine ⟨settled.1, settled.2.trans ?_⟩
    cases closed <;> rfl

/-! ## What is left behind a literal -/

/-- Reading the digits of a code leaves no more text than there was. -/
theorem length_readHex_le (text : List Char) :
    ∀ code rest, readHex text = .ok (code, rest) → rest.length ≤ text.length := by
  intro code rest
  fun_cases readHex text with
  | case2 _ digits _ =>
    intro read
    cases read
    exact (List.drop_suffix 4 text).length_le
  | _ => nofun

/-- Reading the second code of a pair leaves no more text than there was. A code that is read takes
its six characters away. -/
theorem length_readTrailing_le (leading : Nat) (text : List Char) :
    ∀ c rest, readTrailing leading text = .ok (c, rest) → rest.length ≤ text.length := by
  intro c rest
  fun_cases readTrailing leading text with
  | case6 =>
    rename_i body code behind _ _ hex _
    intro read
    obtain ⟨-, rfl⟩ := Prod.mk.inj (Except.ok.inj read)
    have shorter := length_readHex_le _ _ _ hex
    exact shorter.trans ((Nat.le_succ _).trans (Nat.le_succ _))
  | _ => nofun

/-- The text behind a piece of a literal, if it can be read. -/
def Piece.behind : Piece → Option (List Char)
  | .close rest | .character _ rest | .surrogate _ rest => some rest
  | .broken .. => none

/-- Reading a piece of a literal leaves less text than there was, so that a literal is read in as
many rounds as it has characters. -/
theorem length_readPiece_lt (text : List Char) :
    ∀ rest ∈ (readPiece text).behind, rest.length < text.length := by
  have twice (text : List Char) (c d : Char) : text.length < (c :: d :: text).length :=
    (Nat.lt_succ_self _).trans (Nat.lt_succ_self _)
  fun_cases readPiece text with
  | case2 rest =>
    rintro _ ⟨⟩
    exact Nat.lt_succ_self _
  | case5 text code behind hex second =>
    rintro _ ⟨⟩
    exact (length_readHex_le _ _ _ hex).trans_lt (twice _ _ _)
  | case6 text code behind hex single first c rest trailing =>
    rintro _ ⟨⟩
    exact ((length_readTrailing_le _ _ _ _ trailing).trans
      (length_readHex_le _ _ _ hex)).trans_lt (twice _ _ _)
  | case7 text code behind hex single first fault trailing =>
    rintro _ ⟨⟩
    exact (length_readHex_le _ _ _ hex).trans_lt (twice _ _ _)
  | case8 text code behind hex single other =>
    rintro _ ⟨⟩
    exact (length_readHex_le _ _ _ hex).trans_lt (twice _ _ _)
  | case9 =>
    rintro _ ⟨⟩
    exact twice _ _ _
  | case12 =>
    rintro _ ⟨⟩
    exact Nat.lt_succ_self _
  | _ => nofun

/-- Behind a literal, less of the text is left. By induction over the pieces, each of which takes at
least one character. -/
theorem length_readString_lt (text : List Char) :
    ∀ rest ∈ (readString text).2, rest.length < text.length := by
  suffices reads : ∀ fuel spoilt value, ∀ rest ∈ (readLiteral spoilt value fuel text).2,
      rest.length < text.length from reads _ none []
  intro fuel
  induction fuel generalizing text with
  | zero => nofun
  | succ fuel inductionHypothesis =>
    intro spoilt value rest member
    have shorter := length_readPiece_lt text
    rw [readLiteral] at member
    cases piece : readPiece text with
    | close behind =>
      rw [piece] at member shorter
      cases spoilt <;> cases member <;> exact shorter _ rfl
    | character c behind =>
      rw [piece] at member shorter
      exact (inductionHypothesis _ _ _ rest member).trans (shorter _ rfl)
    | surrogate fault behind =>
      rw [piece] at member shorter
      exact (inductionHypothesis _ _ _ rest member).trans (shorter _ rfl)
    | broken reading skipping =>
      rw [piece] at member
      cases member

end Parlance.Json
