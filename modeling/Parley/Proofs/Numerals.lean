import Parley.Proofs.Characters

/-! The number reader takes exactly the numerals of the grammar that have a value. -/
namespace Parley.Json.Grammar
open Reader Utf8

variable {negative : Bool} {significand : Nat} {shift : Int} {cs : List Char} {j : Json} {t : Bytes}

/-- All digits are taken just when the number is below the limit. -/
theorem absorb_fits {limit m : Nat} {ds : List Char} (small : m < limit) :
    (absorb limit m (ds.map fun d => d.toNat - '0'.toNat)).2 = [] ↔
      Nat.ofDigitChars 10 ds m < limit := by
  constructor
  · induction ds generalizing m with
    | nil => exact fun _ => small
    | cons d ds ih =>
      rw [Nat.ofDigitChars_cons, Nat.mul_comm, List.map_cons, absorb]
      split
      · next fits => exact ih fits
      · intro none
        cases none
  · intro fits
    rw [absorb_all fits]

theorem scaled_iff {s : Bytes} :
    scaled negative significand shift s = .ok (j, t) ↔
      float? negative significand shift = some j ∧ t = s := by
  unfold scaled float?
  cases scale? significand shift with
  | none => simp [refuse]
  | some x =>
    rw [Option.map_some, Option.some_inj]
    constructor
    · intro read
      cases read
      exact ⟨rfl, rfl⟩
    · rintro ⟨rfl, rfl⟩
      rfl

theorem Digits.cons (ds : Digits) :
    ∃ d rest, ds.chars = d :: rest ∧ d.isDigit = true ∧ d.toNat < 0x80 := by
  obtain ⟨d, rest, split⟩ := List.exists_cons_of_ne_nil ds.nonempty
  have digit : d.isDigit = true := ds.all d (by rw [split]; exact List.mem_cons_self)
  refine ⟨d, rest, split, digit, ?_⟩
  by_contra high
  rw [agree_digit.char d (by omega)] at digit
  cases digit

theorem Exponent.ascii (e : Exponent) : e.mark.toNat < 0x80 := by
  rcases e.marked with mark | mark <;> (rw [mark]; decide)

/-- What has to begin with a digit does, if it is read. -/
theorem digit_ahead {x : Reader Json} {s : Bytes}
    (read : (do
      match ← peek with
      | none => refuse .endOfValue
      | some c => if c.isDigit then x else do skip; refuse .badNumber : Reader Json) s =
        .ok (j, t)) :
    ∃ d, ahead s = some d ∧ d.isDigit = true := by
  rw [bind_of _ (peek_eq _)] at read
  cases found : ahead s with
  | none =>
    rw [found] at read
    cases read
  | some d =>
    rw [found] at read
    refine ⟨d, rfl, ?_⟩
    by_contra other
    dsimp only at read
    rw [if_neg other] at read
    cases read

/-- An exponent behind its sign. -/
def exponentDigits (negative : Bool) (significand : Nat) (shift : Int) (below : Bool) :
    Reader Json := do
  match ← peek with
  | none => refuse .endOfValue
  | some c =>
    if c.isDigit then
      let ds ← digits
      match absorb exponentLimit 0 ds with
      | (n, []) => scaled negative significand (if below then shift - n else shift + n)
      | (_, _ :: unread) =>
        if significand = 0 ∨ below then pure (.float (signed negative .zero))
        else fun s => .error ⟨.numberOutOfRange, unread.length + s.length⟩
    else do
      skip
      refuse .badNumber

theorem exponentPart_sign {mark : Char} (ascii : mark.toNat < 0x80) {sign : List Char}
    (signs : sign = [] ∧ ahead (encode cs) ≠ some '+' ∧ ahead (encode cs) ≠ some '-' ∨
      sign = ['+'] ∨ sign = ['-']) :
    exponentPart negative significand shift (encode (mark :: (sign ++ cs))) =
      exponentDigits negative significand shift (sign = ['-']) (encode cs) := by
  unfold exponentPart
  rw [bind_of _ (skip_ascii ascii _), bind_of _ (peek_eq _)]
  rcases signs with ⟨rfl, plus, minus⟩ | rfl | rfl
  · rw [List.nil_append]
    generalize ahead (encode cs) = first at plus minus
    dsimp only
    split
    · contradiction
    · contradiction
    · rfl
  · rw [List.singleton_append, ahead_ascii (by decide)]
    change (skip >>= _) (encode ('+' :: cs)) = _
    rw [bind_of _ (skip_ascii (by decide) _)]
    rfl
  · rw [List.singleton_append, ahead_ascii (by decide)]
    change (skip >>= _) (encode ('-' :: cs)) = _
    rw [bind_of _ (skip_ascii (by decide) _)]
    rfl

theorem exponentDigits_iff (ds : Digits) {below : Bool}
    (stop : ∀ c ∈ cs.head?, c.isDigit = false) :
    exponentDigits negative significand shift below (encode (ds.chars ++ cs)) = .ok (j, t) ↔
      (if ds.value < exponentLimit then
        float? negative significand (if below then shift - ds.value else shift + ds.value)
      else if significand = 0 ∨ below then some (.float (signed negative .zero))
      else none) = some j ∧ t = encode cs := by
  obtain ⟨d, rest, split, digit, ascii⟩ := ds.cons
  have first : ahead (encode (ds.chars ++ cs)) = some d := by
    rw [split]
    exact ahead_ascii ascii _
  unfold exponentDigits
  rw [bind_of _ (peek_eq _), first]
  dsimp only
  rw [if_pos digit, bind_of _ (digits_run ds stop)]
  by_cases fits : ds.value < exponentLimit
  · have taken : absorb exponentLimit 0 ds.values = (ds.value, []) := absorb_all fits
    rw [taken, if_pos fits]
    exact scaled_iff
  · have read : (absorb exponentLimit 0 ds.values).2 ≠ [] := fun none =>
      fits ((absorb_fits (by decide)).mp none)
    generalize absorb exponentLimit 0 ds.values = taken at read ⊢
    obtain ⟨n, unread⟩ := taken
    obtain ⟨v, unread, rfl⟩ := List.exists_cons_of_ne_nil read
    rw [if_neg fits]
    dsimp only
    split
    · constructor
      · intro read
        cases read
        exact ⟨rfl, rfl⟩
      · rintro ⟨same, rfl⟩
        cases same
        rfl
    · constructor
      · intro read
        cases read
      · rintro ⟨none, -⟩
        cases none

theorem exponentPart_iff (e : Exponent) (stop : ∀ c ∈ cs.head?, c.isDigit = false) :
    exponentPart negative significand shift (encode (e.chars ++ cs)) = .ok (j, t) ↔
      e.float? negative significand shift = some j ∧ t = encode cs := by
  have signs : e.sign = [] ∧ ahead (encode (e.digits.chars ++ cs)) ≠ some '+' ∧
      ahead (encode (e.digits.chars ++ cs)) ≠ some '-' ∨ e.sign = ['+'] ∨ e.sign = ['-'] := by
    obtain ⟨d, rest, split, digit, ascii⟩ := e.digits.cons
    refine e.signed.imp_left fun none => ⟨none, ?_⟩
    rw [split, List.cons_append, ahead_ascii ascii]
    constructor <;> (rintro ⟨⟩; cases digit)
  rw [Exponent.chars, List.cons_append, List.append_assoc, exponentPart_sign e.ascii signs,
    exponentDigits_iff e.digits stop]
  simp only [Exponent.float?, decide_eq_true_eq]

theorem split_sign (cs : List Char) : ∃ sign rest, cs = sign ++ rest ∧
    (sign = [] ∧ ahead (encode rest) ≠ some '+' ∧ ahead (encode rest) ≠ some '-' ∨
      sign = ['+'] ∨ sign = ['-']) := by
  by_cases plus : ahead (encode cs) = some '+'
  · obtain ⟨rest, rfl⟩ := ahead_some plus (by decide)
    exact ⟨['+'], rest, rfl, .inr (.inl rfl)⟩
  by_cases minus : ahead (encode cs) = some '-'
  · obtain ⟨rest, rfl⟩ := ahead_some minus (by decide)
    exact ⟨['-'], rest, rfl, .inr (.inr rfl)⟩
  exact ⟨[], cs, rfl, .inl ⟨rfl, plus, minus⟩⟩

/-- The reader gets through only where an exponent stands. -/
theorem exponent_of_exponentPart {mark : Char} (marked : mark = 'e' ∨ mark = 'E')
    (read : exponentPart negative significand shift (encode (mark :: cs)) = .ok (j, t)) :
    ∃ (e : Exponent) (rest : List Char), mark :: cs = e.chars ++ rest ∧
      ∀ c ∈ rest.head?, c.isDigit = false := by
  have ascii : mark.toNat < 0x80 := by rcases marked with rfl | rfl <;> decide
  obtain ⟨sign, rest, rfl, signs⟩ := split_sign cs
  rw [exponentPart_sign ascii signs] at read
  obtain ⟨d, found, digit⟩ := digit_ahead read
  obtain ⟨ds, rest, rfl, stop⟩ := split_digits found digit
  refine ⟨⟨mark, sign, ds, marked, signs.imp_left (·.1)⟩, rest, ?_, stop⟩
  rw [Exponent.chars, List.cons_append, List.append_assoc]

/-! The fraction, and the exponent behind it. -/

/-- Neither digits nor an exponent go on there. -/
structure Closed (e : Option Exponent) (cs : List Char) : Prop where
  digits : ∀ c ∈ cs.head?, c.isDigit = false
  exponent : e = none → ∀ c ∈ cs.head?, c ≠ 'e' ∧ c ≠ 'E'

theorem Closed.behind {e : Option Exponent} (closed : Closed e cs) :
    ∀ c ∈ (exponentChars e ++ cs).head?, c.isDigit = false := by
  cases e with
  | none => exact closed.digits
  | some e =>
    intro c first
    obtain rfl := Option.some.inj first
    rcases e.marked with mark | mark <;> (rw [mark]; rfl)

theorem Closed.unmarked (closed : Closed none cs) :
    ahead (encode cs) ≠ some 'e' ∧ ahead (encode cs) ≠ some 'E' :=
  ⟨ahead_ne (by decide) fun c first => (closed.exponent rfl c first).1,
    ahead_ne (by decide) fun c first => (closed.exponent rfl c first).2⟩

theorem ahead_exponent (e : Exponent) (cs : List Char) :
    ahead (encode (e.chars ++ cs)) = some 'e' ∨ ahead (encode (e.chars ++ cs)) = some 'E' := by
  rw [Exponent.chars, List.cons_append, ahead_ascii e.ascii]
  exact e.marked.imp (congrArg some) (congrArg some)

/-- What both parts of a number end with. -/
theorem optionalExponent_iff {e : Option Exponent} (closed : Closed e cs) :
    (match ahead (encode (exponentChars e ++ cs)) with
      | some 'e' | some 'E' => exponentPart negative significand shift
      | _ => scaled negative significand shift) (encode (exponentChars e ++ cs)) = .ok (j, t) ↔
      optionalFloat? e negative significand shift = some j ∧ t = encode cs := by
  cases e with
  | some e =>
    refine Iff.trans ?_ (exponentPart_iff e closed.digits)
    rcases ahead_exponent e cs with found | found
    · rw [show exponentChars (some e) = e.chars from rfl, found]
      exact Iff.rfl
    · rw [show exponentChars (some e) = e.chars from rfl, found]
      exact Iff.rfl
  | none =>
    obtain ⟨lower, upper⟩ := closed.unmarked
    rw [show exponentChars none ++ cs = cs from rfl]
    refine Iff.trans ?_ scaled_iff
    generalize ahead (encode cs) = first at lower upper
    split
    · contradiction
    · contradiction
    · exact Iff.rfl

theorem fractionPart_iff (ds : Digits) {e : Option Exponent} (closed : Closed e cs) :
    let all := absorb wordLimit significand ds.values
    fractionPart negative significand shift
        (encode (fractionChars (some ds) ++ (exponentChars e ++ cs))) = .ok (j, t) ↔
      optionalFloat? e negative all.1 (shift - (ds.values.length - all.2.length : Nat)) = some j ∧
        t = encode cs := by
  dsimp only
  unfold fractionPart
  rw [fractionChars, List.cons_append, bind_of _ (skip_ascii (by decide) _),
    bind_of _ (digits_run ds closed.behind)]
  have values : ds.values ≠ [] := fun none => ds.nonempty (List.map_eq_nil_iff.mp none)
  generalize ds.values = vs at values ⊢
  obtain ⟨v, vs, rfl⟩ := List.exists_cons_of_ne_nil values
  dsimp only
  generalize absorb wordLimit significand (v :: vs) = taken
  refine Iff.trans (iff_of_eq (congrArg (· = Except.ok (j, t)) (bind_of _ (peek_eq _)))) ?_
  exact optionalExponent_iff closed

/-- The reader gets through only where an exponent stands, or none. -/
theorem split_optionalExponent (stop : ∀ c ∈ cs.head?, c.isDigit = false)
    (read : ∀ mark, mark = 'e' ∨ mark = 'E' → ahead (encode cs) = some mark →
      ∃ negative significand shift,
        exponentPart negative significand shift (encode cs) = .ok (j, t)) :
    ∃ (e : Option Exponent) (rest : List Char), cs = exponentChars e ++ rest ∧ Closed e rest := by
  by_cases marked : ∃ mark, (mark = 'e' ∨ mark = 'E') ∧ ahead (encode cs) = some mark
  · obtain ⟨mark, marked, found⟩ := marked
    obtain ⟨negative, significand, shift, read⟩ := read mark marked found
    obtain ⟨rest, rfl⟩ := ahead_some found (by rcases marked with rfl | rfl <;> decide)
    obtain ⟨e, rest, split, stop⟩ := exponent_of_exponentPart marked read
    exact ⟨some e, rest, split, stop, nofun⟩
  · refine ⟨none, cs, rfl, stop, fun _ c first => ?_⟩
    obtain ⟨rest, rfl⟩ := List.head?_eq_some_iff.mp first
    constructor
    · rintro rfl
      exact marked ⟨'e', .inl rfl, ahead_ascii (by decide) rest⟩
    · rintro rfl
      exact marked ⟨'E', .inr rfl, ahead_ascii (by decide) rest⟩

/-- The reader gets through only where a fraction stands. -/
theorem fraction_of_fractionPart
    (read : fractionPart negative significand shift (encode ('.' :: cs)) = .ok (j, t)) :
    ∃ (ds : Digits) (e : Option Exponent) (rest : List Char),
      '.' :: cs = fractionChars (some ds) ++ (exponentChars e ++ rest) ∧ Closed e rest := by
  unfold fractionPart at read
  rw [bind_of _ (skip_ascii (by decide) _)] at read
  have begun : ∃ d, ahead (encode cs) = some d ∧ d.isDigit = true := by
    by_contra other
    rw [bind_of _ (digits_none fun c first => by
      rw [Bool.eq_false_iff]
      exact fun digit => other ⟨c, first, digit⟩)] at read
    dsimp only at read
    rw [bind_of _ (peek_eq _)] at read
    cases found : ahead (encode cs) <;> (rw [found] at read; cases read)
  obtain ⟨d, found, digit⟩ := begun
  obtain ⟨ds, behind, rfl, stop⟩ := split_digits found digit
  rw [bind_of _ (digits_run ds stop)] at read
  have values : ds.values ≠ [] := fun none => ds.nonempty (List.map_eq_nil_iff.mp none)
  generalize ds.values = vs at values read
  obtain ⟨v, vs, rfl⟩ := List.exists_cons_of_ne_nil values
  dsimp only at read
  rw [bind_of _ (peek_eq _)] at read
  obtain ⟨e, rest, rfl, closed⟩ := split_optionalExponent (j := j) (t := t) stop (by
    rintro mark (rfl | rfl) found
    · rw [found] at read
      exact ⟨_, _, _, read⟩
    · rw [found] at read
      exact ⟨_, _, _, read⟩)
  exact ⟨ds, e, rest, by rw [fractionChars, List.cons_append], closed⟩

/-! Whole numbers. -/

/-- The numeral does not go on there. -/
structure Numeral.EndsBefore (n : Numeral) (cs : List Char) : Prop where
  closed : Closed n.exponent cs
  fraction : n.fraction = none → n.exponent = none → ∀ c ∈ cs.head?, c ≠ '.'

/-- A number behind the digits in front of its point. -/
def numberTail (negative : Bool) (head : Nat × List Nat) : Reader Json := do
  match ← peek with
  | some '.' => fractionPart negative head.1 head.2.length
  | some 'e' | some 'E' => exponentPart negative head.1 head.2.length
  | _ =>
    if head.2.isEmpty then pure (wholeNumber negative head.1)
    else scaled negative head.1 head.2.length

theorem number_digits (ds : Digits) (stop : ∀ c ∈ cs.head?, c.isDigit = false) :
    number negative (encode (ds.chars ++ cs)) = .ok (j, t) ↔
      (∀ rest, ds.chars = '0' :: rest → rest = []) ∧
        numberTail negative (absorb wordLimit 0 ds.values) (encode cs) = .ok (j, t) := by
  obtain ⟨d, rest, split, digit, ascii⟩ := ds.cons
  have first : ahead (encode (ds.chars ++ cs)) = some d := by
    rw [split]
    exact ahead_ascii ascii _
  unfold number
  rw [bind_of _ (peek_eq _), first]
  dsimp only
  rw [if_pos digit, bind_of _ (digits_run ds stop)]
  have values : ds.values = (d.toNat - '0'.toNat) :: rest.map fun d => d.toNat - '0'.toNat := by
    rw [Digits.values, split, List.map_cons]
  rw [split]
  generalize ds.values = vs at values ⊢
  split
  · next v unread =>
    obtain ⟨zero, behind⟩ := List.cons.inj values
    have lead : d = '0' := by
      have low := (Char.isDigit_iff_toNat.mp digit).1
      exact Char.toNat_inj.mp (by omega)
    constructor
    · intro read
      cases read
    · rintro ⟨single, -⟩
      rw [single rest (by rw [lead])] at behind
      cases behind
  · next other =>
    refine ⟨fun read => ⟨fun more same => ?_, read⟩, And.right⟩
    obtain ⟨rfl, rfl⟩ := List.cons.inj same
    cases rest with
    | nil => rfl
    | cons c rest => exact (other _ _ values).elim

/-- Digits without a fraction or an exponent. -/
theorem integer_iff (whole : Digits) {s : Bytes} :
    let head := absorb wordLimit 0 whole.values
    (if head.2.isEmpty then pure (wholeNumber negative head.1)
      else scaled negative head.1 head.2.length : Reader Json) s = .ok (j, t) ↔
      (if whole.value < wordLimit then some (wholeNumber negative whole.value)
        else float? negative head.1 head.2.length) = some j ∧ t = s := by
  dsimp only
  by_cases small : whole.value < wordLimit
  · have taken : absorb wordLimit 0 whole.values = (whole.value, []) := absorb_all small
    rw [taken, if_pos List.isEmpty_nil, if_pos small, Option.some_inj]
    constructor
    · intro read
      cases read
      exact ⟨rfl, rfl⟩
    · rintro ⟨rfl, rfl⟩
      rfl
  · have unread : ¬ (absorb wordLimit 0 whole.values).2.isEmpty = true := by
      rw [List.isEmpty_iff, show (absorb wordLimit 0 whole.values).2 = [] ↔ _ from
        absorb_fits (by decide)]
      exact small
    rw [if_neg unread, if_neg small]
    exact scaled_iff

theorem numberTail_iff (n : Numeral) (ends : n.EndsBefore cs) :
    numberTail n.negative (absorb wordLimit 0 n.whole.values)
        (encode (fractionChars n.fraction ++ (exponentChars n.exponent ++ cs))) = .ok (j, t) ↔
      n.value? = some j ∧ t = encode cs := by
  obtain ⟨negative, whole, fraction, exponent, lead⟩ := n
  obtain ⟨closed, point⟩ := ends
  unfold numberTail Numeral.value? Numeral.scaled
  dsimp only at closed point ⊢
  rw [bind_of _ (peek_eq _)]
  cases fraction with
  | some ds =>
    rw [if_neg (fun whole : (some ds).isNone = true ∧ _ ∧ _ => nomatch whole.1)]
    refine Iff.trans ?_ (fractionPart_iff ds closed)
    have dot : ahead (encode (fractionChars (some ds) ++ (exponentChars exponent ++ cs))) =
        some '.' := ahead_ascii (by decide) _
    rw [dot]
    exact Iff.rfl
  | none =>
    rw [show fractionChars none = [] from rfl, List.nil_append]
    cases exponent with
    | some e =>
      rw [if_neg (fun whole : _ ∧ (some e).isNone = true ∧ _ => nomatch whole.2.1)]
      refine Iff.trans ?_ (exponentPart_iff e closed.digits)
      rcases ahead_exponent e cs with found | found
      · rw [show exponentChars (some e) = e.chars from rfl, found]
        exact Iff.rfl
      · rw [show exponentChars (some e) = e.chars from rfl, found]
        exact Iff.rfl
    | none =>
      obtain ⟨lower, upper⟩ := closed.unmarked
      have dot : ahead (encode cs) ≠ some '.' := ahead_ne (by decide) (point rfl rfl)
      rw [show exponentChars none ++ cs = cs from rfl]
      generalize ahead (encode cs) = first at lower upper dot
      dsimp only
      split
      · contradiction
      · contradiction
      · contradiction
      · refine (integer_iff whole).trans ?_
        simp only [Option.isNone_none, true_and]
        exact Iff.rfl

theorem number_iff (n : Numeral) (ends : n.EndsBefore cs) :
    number n.negative (encode (n.unsigned ++ cs)) = .ok (j, t) ↔
      n.value? = some j ∧ t = encode cs := by
  have stop : ∀ c ∈ (fractionChars n.fraction ++ (exponentChars n.exponent ++ cs)).head?,
      c.isDigit = false := by
    cases n.fraction with
    | none => exact ends.closed.behind
    | some ds =>
      intro c first
      obtain rfl := Option.some.inj first
      rfl
  rw [Numeral.unsigned, List.append_assoc, List.append_assoc, number_digits n.whole stop,
    and_iff_right n.lead]
  exact numberTail_iff n ends

/-- The reader gets through only where a numeral stands. -/
theorem numeral_of_number (read : number negative (encode cs) = .ok (j, t)) :
    ∃ (n : Numeral) (rest : List Char), n.negative = negative ∧ cs = n.unsigned ++ rest ∧
      n.EndsBefore rest := by
  obtain ⟨d, found, digit⟩ := digit_ahead read
  obtain ⟨ds, behind, rfl, stop⟩ := split_digits found digit
  obtain ⟨lead, read⟩ := (number_digits ds stop).mp read
  unfold numberTail at read
  rw [bind_of _ (peek_eq _)] at read
  by_cases dot : ahead (encode behind) = some '.'
  · rw [dot] at read
    obtain ⟨rest, rfl⟩ := ahead_some dot (by decide)
    obtain ⟨fraction, e, rest, split, closed⟩ := fraction_of_fractionPart read
    refine ⟨⟨negative, ds, some fraction, e, lead⟩, rest, rfl, ?_, closed, nofun⟩
    rw [Numeral.unsigned, split, List.append_assoc, List.append_assoc]
  · obtain ⟨e, rest, rfl, closed⟩ := split_optionalExponent (j := j) (t := t) stop (by
      rintro mark (rfl | rfl) found
      · rw [found] at read
        exact ⟨_, _, _, read⟩
      · rw [found] at read
        exact ⟨_, _, _, read⟩)
    refine ⟨⟨negative, ds, none, e, lead⟩, rest, rfl, ?_, closed, ?_⟩
    · rw [Numeral.unsigned, List.append_assoc]
      rfl
    · rintro - rfl c first rfl
      obtain ⟨more, rfl⟩ := List.head?_eq_some_iff.mp first
      exact dot (ahead_ascii (by decide) more)

theorem number_sound (read : number negative (encode cs) = .ok (j, t)) :
    ∃ (n : Numeral) (rest : List Char), n.negative = negative ∧ cs = n.unsigned ++ rest ∧
      n.value? = some j ∧ t = encode rest := by
  obtain ⟨n, rest, rfl, rfl, ends⟩ := numeral_of_number read
  rw [number_iff n ends] at read
  exact ⟨n, rest, rfl, rfl, read⟩

end Parley.Json.Grammar
