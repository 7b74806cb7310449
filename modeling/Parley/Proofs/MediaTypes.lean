import Mathlib.Data.List.TakeWhile
import Parley.Transport.MediaType

/-! Which texts are media types: a type and a subtype, which are tokens, and parameters behind
semicolons. -/
namespace Parley.MediaType

abbrev Token := { cs : List Char // ∀ c ∈ cs, isToken c = true }

/-- A text in quotes and the spaces behind them. Its first character may be a quote itself. -/
structure Quoted where
  first : Char
  others : List Char
  behind : Nat
  quotable : isQuotable first = true
  inside : ∀ c ∈ others, isQuotable c = true ∧ c ≠ '"'

def Quoted.chars (q : Quoted) : List Char :=
  '"' :: q.first :: (q.others ++ '"' :: List.replicate q.behind ' ')

inductive ParameterValue where
  | token (t : Token)
  | quoted (q : Quoted)

def ParameterValue.chars : ParameterValue → List Char
  | .token t => t.val
  | .quoted q => q.chars

structure Parameter where
  before : Nat
  name : Token
  named : name.val ≠ []
  value : ParameterValue

def Parameter.chars (p : Parameter) : List Char :=
  List.replicate p.before ' ' ++ (p.name.val ++ '=' :: p.value.chars)

/-- Only the last value may be empty, and there may be a semicolon behind it. -/
inductive Parameters : List Char → Prop
  | spaces (n : Nat) : Parameters (List.replicate n ' ')
  | last (p : Parameter) : Parameters p.chars
  | more (p : Parameter) {s : List Char} (some : p.value.chars ≠ []) (rest : Parameters s) :
    Parameters (p.chars ++ ';' :: s)

/-- The last plus sign that is not first splits off the suffix. -/
inductive Suffixed : List Char → List Char → Option (List Char) → Prop
  | none {s : List Char} (plus : '+' ∉ s.tail) : Suffixed s s .none
  | some {subtype suffix : List Char} (front : subtype ≠ []) (last : '+' ∉ suffix) :
    Suffixed (subtype ++ '+' :: suffix) subtype (.some suffix)

inductive Written : List Char → MediaType → Prop
  | bare {type sub : Token} {subtype : List Char} {suffix : Option (List Char)}
    (some : type.val ≠ []) (split : Suffixed sub.val subtype suffix) :
    Written (type.val ++ '/' :: sub.val) ⟨type.val, subtype, suffix⟩
  | parameters {type sub : Token} {subtype s : List Char} {suffix : Option (List Char)}
    (some : type.val ≠ []) (some' : sub.val ≠ []) (split : Suffixed sub.val subtype suffix)
    (parameters : Parameters s) :
    Written (type.val ++ '/' :: (sub.val ++ ';' :: s)) ⟨type.val, subtype, suffix⟩

/-! Splitting a text. -/

section span

variable {p : Char → Bool} {run : List Char}

theorem span_run (rest : List Char) (all : ∀ c ∈ run, p c = true)
    (stop : ∀ c ∈ rest.head?, p c = false) :
    (run ++ rest).takeWhile p = run ∧ (run ++ rest).dropWhile p = rest := by
  rw [List.takeWhile_append_of_pos all, List.dropWhile_append_of_pos all]
  cases rest with
  | nil => exact ⟨List.append_nil run, rfl⟩
  | cons c rest =>
    have other : ¬p c = true := by simp [stop c rfl]
    rw [List.takeWhile_cons_of_neg other, List.dropWhile_cons_of_neg other]
    exact ⟨List.append_nil run, rfl⟩

theorem span_all (all : ∀ c ∈ run, p c = true) : run.takeWhile p = run ∧ run.dropWhile p = [] := by
  simpa using span_run [] all nofun

theorem split_spaces (s : List Char) : ∃ n, s = List.replicate n ' ' ++ s.dropWhile (· = ' ') := by
  refine ⟨(s.takeWhile (· = ' ')).length, ?_⟩
  have spaces : s.takeWhile (· = ' ') = List.replicate (s.takeWhile (· = ' ')).length ' ' :=
    List.eq_replicate_of_mem fun c member => by simpa using List.mem_takeWhile_imp member
  rw [← spaces, List.takeWhile_append_dropWhile]

theorem dropWhile_spaces (n : Nat) (rest : List Char) (stop : ∀ c ∈ rest.head?, c ≠ ' ') :
    (List.replicate n ' ' ++ rest).dropWhile (· = ' ') = rest := by
  refine (span_run _ (fun c member => ?_) fun c first => ?_).2
  · simpa using List.eq_of_mem_replicate member
  · simpa using stop c first

theorem dropWhile_only_spaces (n : Nat) : (List.replicate n ' ').dropWhile (· = ' ') = [] := by
  simp

end span

/-- The characters that part tokens are in none. -/
theorem isToken_mark {c : Char} (mark : c ∈ [' ', '"', '/', ';', '=']) : isToken c = false := by
  simp only [List.mem_cons, List.not_mem_nil, or_false] at mark
  rcases mark with rfl | rfl | rfl | rfl | rfl <;> decide

theorem Token.not_mem (t : Token) {c : Char} (mark : c ∈ [' ', '"', '/', ';', '=']) : c ∉ t.val :=
  fun member => Bool.false_ne_true ((isToken_mark mark).symm.trans (t.property c member))

/-- A token is read up to a mark. -/
theorem Token.run (t : Token) {c : Char} (mark : c ∈ [' ', '"', '/', ';', '=']) (rest : List Char) :
    (t.val ++ c :: rest).takeWhile isToken = t.val ∧
      (t.val ++ c :: rest).dropWhile isToken = c :: rest := by
  refine span_run _ t.property fun d first => ?_
  obtain rfl := Option.some.inj first
  exact isToken_mark mark

theorem split_token (s : List Char) :
    ∃ t : Token, s.takeWhile isToken = t.val ∧ s = t.val ++ s.dropWhile isToken :=
  ⟨⟨s.takeWhile isToken, fun _ member => List.mem_takeWhile_imp member⟩, rfl,
    List.takeWhile_append_dropWhile.symm⟩

/-! Values. -/

theorem afterQuoted?_iff {s rest : List Char} : afterQuoted? s = some rest ↔
    ∃ n, (s = List.replicate n ' ' ∧ rest = []) ∨ s = List.replicate n ' ' ++ ';' :: rest := by
  unfold afterQuoted?
  constructor
  · intro read
    obtain ⟨n, split⟩ := split_spaces s
    split at read
    · next none =>
      cases read
      rw [none, List.append_nil] at split
      exact ⟨n, .inl ⟨split, rfl⟩⟩
    · next some =>
      cases read
      rw [some] at split
      exact ⟨n, .inr split⟩
    · cases read
  · rintro ⟨n, ⟨rfl, rfl⟩ | rfl⟩
    · rw [dropWhile_only_spaces]
    · rw [dropWhile_spaces n _ (by simp)]
      rfl

/-- What stands in `s` behind a text that ends in a value: nothing, or a semicolon and the rest if
the value is not empty. -/
def Behind (value text s rest : List Char) : Prop :=
  s = text ∧ rest = [] ∨ value ≠ [] ∧ s = text ++ ';' :: rest

theorem Quoted.run (q : Quoted) (tail : List Char) :
    (q.others ++ '"' :: tail).dropWhile (fun c => isQuotable c && c ≠ '"') = '"' :: tail := by
  refine (span_run _ (fun c member => ?_) (by simp)).2
  simpa using q.inside c member

theorem afterValue?_quoted {q : Quoted} {s rest : List Char}
    (behind : Behind q.chars q.chars s rest) : afterValue? s = some rest := by
  obtain ⟨tail, rfl, after⟩ : ∃ tail,
      s = '"' :: q.first :: (q.others ++ '"' :: (List.replicate q.behind ' ' ++ tail)) ∧
        afterQuoted? (List.replicate q.behind ' ' ++ tail) = some rest := by
    rcases behind with ⟨rfl, rfl⟩ | ⟨-, rfl⟩
    · exact ⟨[], by simp [Quoted.chars], afterQuoted?_iff.mpr ⟨q.behind, .inl ⟨by simp, rfl⟩⟩⟩
    · exact ⟨';' :: rest, by simp [Quoted.chars], afterQuoted?_iff.mpr ⟨q.behind, .inr rfl⟩⟩
  rw [afterValue?, if_pos q.quotable, q.run]
  exact after

theorem afterValue?_token {t : Token} {s rest : List Char} (behind : Behind t.val t.val s rest) :
    afterValue? s = some rest := by
  have unquoted : ∀ s', s ≠ '"' :: s' := by
    rintro s' rfl
    refine t.not_mem (c := '"') (by decide) ?_
    rcases behind with ⟨same, -⟩ | ⟨some, same⟩
    · rw [← same]
      exact List.mem_cons_self
    · obtain ⟨c, run, text⟩ := List.exists_cons_of_ne_nil some
      rw [text, List.cons_append] at same
      rw [text, (List.cons.inj same).1]
      exact List.mem_cons_self
  unfold afterValue?
  split
  · exact (unquoted _ rfl).elim
  · rcases behind with ⟨rfl, rfl⟩ | ⟨some, rfl⟩
    · rw [(span_all t.property).1, (span_all t.property).2]
    · obtain ⟨run, stop⟩ := t.run (c := ';') (by decide) rest
      obtain ⟨c, text, same⟩ := List.exists_cons_of_ne_nil some
      rw [run, stop, same]
      rfl

theorem split_quoted {s behind : List Char}
    (quote : s.dropWhile (fun c => isQuotable c && c ≠ '"') = '"' :: behind) :
    ∃ others, s = others ++ '"' :: behind ∧ ∀ c ∈ others, isQuotable c = true ∧ c ≠ '"' := by
  refine ⟨s.takeWhile fun c => isQuotable c && c ≠ '"', ?_, fun c member => ?_⟩
  · rw [← quote, List.takeWhile_append_dropWhile]
  · simpa using List.mem_takeWhile_imp member

theorem afterValue?_iff {s rest : List Char} : afterValue? s = some rest ↔
    ∃ v : ParameterValue, Behind v.chars v.chars s rest := by
  constructor
  · intro read
    unfold afterValue? at read
    split at read
    · next c s =>
      split at read
      · next quotable =>
        split at read
        · next behind quote =>
          obtain ⟨others, rfl, inside⟩ := split_quoted quote
          obtain ⟨n, after⟩ := afterQuoted?_iff.mp read
          refine ⟨.quoted ⟨c, others, n, quotable, inside⟩, ?_⟩
          rcases after with ⟨rfl, rfl⟩ | rfl
          · exact .inl ⟨rfl, rfl⟩
          · exact .inr ⟨List.cons_ne_nil _ _, by simp [ParameterValue.chars, Quoted.chars]⟩
        · cases read
      · cases read
    · obtain ⟨t, taken, whole⟩ := split_token s
      refine ⟨.token t, ?_⟩
      split at read
      · next none =>
        cases read
        rw [none, List.append_nil] at whole
        exact .inl ⟨whole, rfl⟩
      · next some behind =>
        cases read
        rw [behind] at whole
        exact .inr ⟨by simp [ParameterValue.chars, ← taken, some], whole⟩
      · cases read
  · rintro ⟨t | q, behind⟩
    · exact afterValue?_token behind
    · exact afterValue?_quoted behind

/-! Parameters. -/

section parameters

variable {fuel : Nat} {s rest : List Char}

theorem cases_of_validParameters (valid : validParameters (fuel + 1) s = true) :
    (∃ n, s = List.replicate n ' ') ∨ ∃ (p : Parameter) (rest : List Char),
      validParameters fuel rest = true ∧ Behind p.value.chars p.chars s rest := by
  obtain ⟨n, split⟩ := split_spaces s
  rw [validParameters] at valid
  split at valid
  · next none =>
    rw [List.isEmpty_iff.mp none, List.append_nil] at split
    exact .inl ⟨n, split⟩
  · split at valid
    · next c run value some equals =>
      split at valid
      · next rest read =>
        obtain ⟨v, behind⟩ := afterValue?_iff.mp read
        obtain ⟨name, taken, whole⟩ := split_token (s.dropWhile (· = ' '))
        rw [equals] at whole
        rw [whole] at split
        have named : name.val ≠ [] := by simp [← taken, some]
        refine .inr ⟨⟨n, name, named, v⟩, rest, valid, ?_⟩
        rcases behind with ⟨rfl, rfl⟩ | ⟨full, rfl⟩
        · exact .inl ⟨split, rfl⟩
        · exact .inr ⟨full, by simpa [Parameter.chars] using split⟩
      · cases valid
    · cases valid

theorem validParameters_spaces (n : Nat) :
    validParameters (fuel + 1) (List.replicate n ' ') = true := by
  rw [validParameters, dropWhile_only_spaces]
  rfl

theorem validParameters_parameter {p : Parameter} (behind : Behind p.value.chars p.chars s rest) :
    validParameters (fuel + 1) s = validParameters fuel rest := by
  obtain ⟨value, rfl, read⟩ : ∃ value,
      s = List.replicate p.before ' ' ++ (p.name.val ++ '=' :: value) ∧
        afterValue? value = some rest := by
    rcases behind with ⟨rfl, rfl⟩ | ⟨full, rfl⟩
    · exact ⟨p.value.chars, rfl, afterValue?_iff.mpr ⟨p.value, .inl ⟨rfl, rfl⟩⟩⟩
    · exact ⟨p.value.chars ++ ';' :: rest, by simp [Parameter.chars],
        afterValue?_iff.mpr ⟨p.value, .inr ⟨full, rfl⟩⟩⟩
  obtain ⟨taken, left⟩ := p.name.run (c := '=') (by decide) value
  obtain ⟨c, run, name⟩ := List.exists_cons_of_ne_nil p.named
  have dark : c ≠ ' ' := by
    rintro rfl
    exact p.name.not_mem (c := ' ') (by decide) (name ▸ List.mem_cons_self)
  rw [name] at taken left
  rw [validParameters, name]
  rw [dropWhile_spaces p.before _ (by simpa using dark), taken, left]
  simp only [List.cons_append, List.isEmpty_cons, Bool.false_eq_true, if_false, read]

theorem Behind.shorter {p : Parameter} (behind : Behind p.value.chars p.chars s rest) :
    rest.length < s.length := by
  have size : 0 < p.chars.length := by
    simp only [Parameter.chars, List.length_append, List.length_cons]
    omega
  rcases behind with ⟨rfl, rfl⟩ | ⟨-, rfl⟩
  · exact size
  · rw [List.length_append, List.length_cons]
    omega

theorem validParameters_iff (enough : s.length < fuel) :
    validParameters fuel s = true ↔ Parameters s := by
  induction fuel generalizing s with
  | zero => exact absurd enough (Nat.not_lt_zero _)
  | succ fuel ih =>
    constructor
    · intro valid
      rcases cases_of_validParameters valid with ⟨n, rfl⟩ | ⟨p, rest, valid, behind⟩
      · exact .spaces n
      · have shorter := behind.shorter
        have parameters := (ih (by omega)).mp valid
        rcases behind with ⟨rfl, -⟩ | ⟨full, rfl⟩
        · exact .last p
        · exact .more p full parameters
    · intro parameters
      cases parameters with
      | spaces n => exact validParameters_spaces n
      | last p =>
        have behind : Behind p.value.chars p.chars p.chars [] := .inl ⟨rfl, rfl⟩
        have shorter := behind.shorter
        rw [validParameters_parameter behind]
        exact (ih (by omega)).mpr (.spaces 0)
      | @more p s full rest =>
        have behind : Behind p.value.chars p.chars (p.chars ++ ';' :: s) s := .inr ⟨full, rfl⟩
        have shorter := behind.shorter
        rw [validParameters_parameter behind]
        exact (ih (by omega)).mpr rest

end parameters

/-! Suffixes. -/

theorem splitSuffix_plus (front : List Char) {behind : List Char} (last : '+' ∉ behind) :
    splitSuffix (front ++ '+' :: behind) =
      if front = [] then ('+' :: behind, none) else (front, some behind) := by
  have tail : (front ++ '+' :: behind).reverse.takeWhile (· ≠ '+') = behind.reverse := by
    rw [List.reverse_append, List.reverse_cons, List.append_assoc]
    refine (span_run _ (fun c member => ?_) (by simp)).1
    rw [decide_eq_true_eq]
    rintro rfl
    exact last (List.mem_reverse.mp member)
  have before : (front ++ '+' :: behind).length - behind.length - 1 = front.length := by
    rw [List.length_append, List.length_cons]
    omega
  have other : behind.length ≠ (front ++ '+' :: behind).length := by
    rw [List.length_append, List.length_cons]
    omega
  unfold splitSuffix
  dsimp only
  rw [tail, List.length_reverse, before, List.take_left, List.reverse_reverse]
  cases front with
  | nil => rw [if_pos (.inr rfl), if_pos rfl, List.nil_append]
  | cons c front => rw [if_neg (by simpa using other), if_neg (List.cons_ne_nil _ _)]

theorem splitSuffix_none {s : List Char} (none : '+' ∉ s) : splitSuffix s = (s, .none) := by
  have all : s.reverse.takeWhile (· ≠ '+') = s.reverse := by
    rw [List.takeWhile_eq_self_iff]
    intro c member
    rw [decide_eq_true_eq]
    rintro rfl
    exact none (List.mem_reverse.mp member)
  unfold splitSuffix
  dsimp only
  rw [all, if_pos (.inl List.length_reverse)]

theorem last_plus {s : List Char} (plus : '+' ∈ s) :
    ∃ front behind, s = front ++ '+' :: behind ∧ '+' ∉ behind := by
  obtain ⟨behind, front, split, last⟩ := List.eq_append_cons_of_mem (List.mem_reverse.mpr plus)
  refine ⟨front.reverse, behind.reverse, ?_, by simpa using last⟩
  rw [← List.reverse_reverse s, split]
  simp

theorem splitSuffix_iff {s subtype : List Char} {suffix : Option (List Char)} :
    splitSuffix s = (subtype, suffix) ↔ Suffixed s subtype suffix := by
  constructor
  · intro split
    by_cases plus : '+' ∈ s
    · obtain ⟨front, behind, rfl, last⟩ := last_plus plus
      rw [splitSuffix_plus _ last] at split
      split at split
      · next empty =>
        cases split
        rw [empty]
        exact .none last
      · next front =>
        cases split
        exact .some front last
    · rw [splitSuffix_none plus] at split
      cases split
      exact .none fun member => plus (List.mem_of_mem_tail member)
  · intro suffixed
    cases suffixed with
    | some front last => rw [splitSuffix_plus _ last, if_neg front]
    | none plus =>
      cases s with
      | nil => exact splitSuffix_none List.not_mem_nil
      | cons c s =>
        by_cases first : c = '+'
        · rw [first]
          exact (splitSuffix_plus [] plus).trans (if_pos rfl)
        · exact splitSuffix_none fun member =>
            (List.mem_cons.mp member).elim (fun same => first same.symm) plus

/-! Whole types. -/

theorem suffixed (s : List Char) : Suffixed s (splitSuffix s).1 (splitSuffix s).2 :=
  splitSuffix_iff.mp rfl

theorem parse?_sound {text : String} {m : MediaType} (parsed : parse? text = some m) :
    Written text.toList m := by
  unfold parse? at parsed
  dsimp only at parsed
  obtain ⟨type, first, whole⟩ := split_token text.toList
  rw [first] at parsed
  split at parsed
  · next c run rest some slash =>
    obtain ⟨sub, second, split⟩ := split_token rest
    rw [second] at parsed
    rw [whole, slash]
    have full : type.val ≠ [] := by simp [some]
    split at parsed
    · next none =>
      cases parsed
      rw [none, List.append_nil] at split
      rw [split]
      exact .bare full (suffixed sub.val)
    · next some' semicolon =>
      split at parsed
      · next valid =>
        cases parsed
        rw [semicolon] at split
        rw [split]
        have full' : sub.val ≠ [] := by simp [some']
        have parameters := (validParameters_iff (Nat.lt_succ_self _)).mp valid
        exact .parameters full full' (suffixed sub.val) parameters
      · cases parsed
    · cases parsed
  · cases parsed

theorem parse?_complete {text : String} {m : MediaType} (written : Written text.toList m) :
    parse? text = some m := by
  unfold parse?
  dsimp only
  generalize text.toList = s at written
  cases written with
  | @bare type sub subtype suffix some split =>
    obtain ⟨run, rest⟩ := type.run (c := '/') (by decide) sub.val
    obtain ⟨run', rest'⟩ := span_all sub.property
    obtain ⟨c, front, same⟩ := List.exists_cons_of_ne_nil some
    rw [run, rest, same]
    simp only [run', rest', splitSuffix_iff.mpr split]
  | @parameters type sub subtype s suffix some some' split parameters =>
    obtain ⟨run, rest⟩ := type.run (c := '/') (by decide) (sub.val ++ ';' :: s)
    obtain ⟨run', rest'⟩ := sub.run (c := ';') (by decide) s
    obtain ⟨c, front, same⟩ := List.exists_cons_of_ne_nil some
    obtain ⟨d, front', same'⟩ := List.exists_cons_of_ne_nil some'
    have valid := (validParameters_iff (Nat.lt_succ_self _)).mpr parameters
    rw [run, rest, same]
    simp only [run', rest', splitSuffix_iff.mpr split]
    rw [same']
    simp only [valid, if_true]

theorem parse?_iff {text : String} {m : MediaType} :
    parse? text = some m ↔ Written text.toList m :=
  ⟨parse?_sound, parse?_complete⟩

/-- The subtype or the suffix is JSON's, in whatever case. -/
def IsJson (m : MediaType) : Prop :=
  m.subtype.map Char.toLower = ['j', 's', 'o', 'n'] ∨
    ∃ suffix, m.suffix = some suffix ∧ suffix.map Char.toLower = ['j', 's', 'o', 'n']

theorem isJson_iff {m : MediaType} : m.isJson = true ↔ m.IsJson := by
  obtain ⟨type, subtype, suffix⟩ := m
  cases suffix <;> simp [isJson, isJsonName, IsJson]

end Parley.MediaType
