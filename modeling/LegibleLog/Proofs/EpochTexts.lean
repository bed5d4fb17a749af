import LegibleLog.Event.Record
import LegibleLog.Proofs.Numerals
import LegibleLog.Proofs.RuntimeLines

/-!
# Numerals as times

A numeral is read as a time last of all, after all notations and patterns.

* `Time.Element.suffix_of_read?` — what an element of a pattern leaves of a text;
* `Time.Pattern.refusesNumerals` — a pattern begins with a name, or with a number behind which there is more than
  digits; `Numeral.read?_of_refuses` says that it reads no numeral;
* `Time.OnlyNumeral cs` — no other notation reads a text; `Numeral.onlyNumeral_chars` says so of all numerals;
* `RawValue.time?_integer` — so an integer has one time, as a text and as a number.
-/

namespace LegibleLog

namespace Time

variable {cs rest : List Char} {p p' : Parts}

/-! ### What the elements of a pattern leave -/

theorem suffix_of_readDigits? {least most n : Nat} (h : readDigits? least most cs = some (n, rest)) :
    rest <:+ cs ∧ least + rest.length ≤ cs.length := by
  obtain ⟨ds, rfl, -, hleast, -⟩ := exists_digits_of_readDigits? h
  refine ⟨List.suffix_append ds rest, ?_⟩
  rw [List.length_append]
  omega

theorem suffix_of_readRun? {least n : Nat} (h : readRun? least cs = some (n, rest)) : rest <:+ cs := by
  unfold readRun? at h
  dsimp only at h
  split at h
  · cases h
  · obtain ⟨m, -, hm⟩ := Option.map_eq_some_iff.mp h
    cases hm
    exact List.dropWhile_suffix _

theorem suffix_of_readName? {names : List String} {n : Nat} (h : readName? names cs = some (n, rest)) : rest <:+ cs := by
  obtain ⟨i, -, hi⟩ := Option.map_eq_some_iff.mp h
  cases hi
  exact List.drop_suffix 3 cs

theorem suffix_of_readOffset? {between : List Char → Option (List Char)} {offset : Int}
    (hbetween : ∀ l r, between l = some r → r <:+ l) (h : readOffset? between true cs = some (offset, rest)) :
    rest <:+ cs := by
  simp only [readOffset?, Option.bind_eq_bind, Option.bind_eq_some_iff, Prod.exists] at h
  obtain ⟨west, r₁, hsign, hours, r₂, hhours, r₃, hr₃, minutes, r₄, hminutes, hlimit⟩ := h
  split at hlimit
  · cases hlimit
    obtain ⟨taken, rfl, -⟩ := takes_readSign? hsign
    have hback : rest <:+ r₂ := (suffix_of_readDigits? hminutes).1.trans (hbetween r₂ r₃ hr₃)
    exact (hback.trans (suffix_of_readDigits? hhours).1).trans (List.suffix_append taken r₁)
  · cases hlimit

theorem suffix_trimStart (cs : List Char) : Text.trimStart cs <:+ cs := List.dropWhile_suffix _

/-- The letters stand behind the signs and the digits. -/
theorem isAlpha_of_lt {c : Char} (h : c.toNat < 0x41) : c.isAlpha = false := by
  refine Bool.eq_false_iff.mpr fun halpha => ?_
  rcases (Bool.or_eq_true _ _).mp halpha with hupper | hlower
  · have hle : 0x41 ≤ c.toNat := UInt32.le_iff_toNat_le.mp (of_decide_eq_true hupper).1
    omega
  · have hle : 0x61 ≤ c.toNat := UInt32.le_iff_toNat_le.mp (of_decide_eq_true ((Bool.and_eq_true _ _).mp hlower).1)
    omega

/-- No name is read where a text does not begin with a letter. -/
theorem readName?_eq_none {names : List String}
    (hnames : names.all (fun name => (Text.asciiLower (name.toList.take 3)).head?.any Char.isAlpha) = true)
    (hcs : ∀ c ∈ cs.head?, c.isAlpha = false) : readName? names cs = none := by
  unfold readName?
  dsimp only
  rw [Option.map_eq_none_iff, List.findIdx?_eq_none_iff]
  intro name hname
  rw [beq_eq_false_iff_ne]
  intro heq
  have hletter := List.all_eq_true.mp hnames name hname
  rw [heq] at hletter
  cases cs with
  | nil => cases hletter
  | cons c r =>
    have hc : c.isAlpha = false := hcs c rfl
    have hupper : c.isUpper = false := (Bool.or_eq_false_iff.mp hc).1
    have hlower : c.toLower = c := dif_neg (of_decide_eq_false hupper)
    have hsame : c.toLower.isAlpha = true := hletter
    rw [hlower, hc] at hsame
    cases hsame

namespace Element

theorem suffix_of_readNumber? {most n : Nat} (h : readNumber? most cs = some (n, rest)) :
    rest <:+ cs ∧ rest.length < cs.length := by
  obtain ⟨hsuffix, hlength⟩ := suffix_of_readDigits? h
  have htrim := suffix_trimStart cs
  have hle := htrim.length_le
  exact ⟨hsuffix.trans htrim, by omega⟩

theorem suffix_of_readYear? {n : Int} (h : readYear? cs = some (n, rest)) : rest <:+ cs ∧ rest.length < cs.length := by
  have htrim := suffix_trimStart cs
  have hle := htrim.length_le
  have hsigned {c : Char} {r : List Char} (heq : Text.trimStart cs = c :: r) (hr : rest <:+ r) :
      rest <:+ cs ∧ rest.length < cs.length := by
    rw [heq] at htrim hle
    have hlength := hr.length_le
    rw [List.length_cons] at hle
    exact ⟨(hr.trans (List.suffix_cons c r)).trans htrim, by omega⟩
  unfold readYear? at h
  split at h
  · next r heq =>
    obtain ⟨⟨m, r'⟩, hrun, hm⟩ := Option.map_eq_some_iff.mp h
    cases hm
    exact hsigned heq (suffix_of_readRun? hrun)
  · next r heq =>
    obtain ⟨⟨m, r'⟩, hrun, hm⟩ := Option.map_eq_some_iff.mp h
    cases hm
    exact hsigned heq (suffix_of_readRun? hrun)
  · obtain ⟨⟨m, r'⟩, hdigits, hm⟩ := Option.map_eq_some_iff.mp h
    cases hm
    exact suffix_of_readNumber? hdigits

/-- The elements that take a number, at least one digit of it. -/
def isNumber : Element → Bool
  | year | yearOfCentury | month | day | hour | minute | second => true
  | _ => false

/-- The elements that take a name. -/
def isName : Element → Bool
  | monthName | weekdayName => true
  | _ => false

/-- The elements that take no text of digits alone. -/
def stopsDigits : Element → Bool
  | literal c => !c.isDigit
  | e => e.isName

/-- **What an element leaves of a text** stands at its end, and a number is not left whole. -/
theorem suffix_of_read? {e : Element} (h : e.read? p cs = some (p', rest)) :
    rest <:+ cs ∧ (e.isNumber = true → rest.length < cs.length) := by
  cases e with
  | literal c =>
    obtain ⟨r, hchar, hr⟩ := Option.map_eq_some_iff.mp h
    cases hr
    rw [eq_cons_of_readChar? hchar]
    exact ⟨List.suffix_cons c _, nofun⟩
  | blank =>
    cases h
    exact ⟨suffix_trimStart cs, nofun⟩
  | year =>
    obtain ⟨⟨n, r⟩, hyear, hn⟩ := Option.map_eq_some_iff.mp h
    cases hn
    exact (suffix_of_readYear? hyear).imp_right fun hlt _ => hlt
  | yearOfCentury | month | day | hour | minute | second =>
    obtain ⟨⟨n, r⟩, hnumber, hn⟩ := Option.map_eq_some_iff.mp h
    cases hn
    exact (suffix_of_readNumber? hnumber).imp_right fun hlt _ => hlt
  | monthName | weekdayName =>
    obtain ⟨⟨n, r⟩, hname, hn⟩ := Option.map_eq_some_iff.mp h
    cases hn
    exact ⟨suffix_of_readName? hname, nofun⟩
  | fraction =>
    obtain ⟨taken, rfl, -⟩ := takes_fraction h
    exact ⟨List.suffix_append taken rest, nofun⟩
  | offset =>
    obtain ⟨⟨n, r⟩, hoffset, hn⟩ := Option.map_eq_some_iff.mp h
    cases hn
    have hbetween : ∀ l r : List Char, some (l.dropWhile fun c => c == ':' || Text.isBlank c) = some r → r <:+ l := by
      rintro l r ⟨⟩
      exact List.dropWhile_suffix _
    exact ⟨(suffix_of_readOffset? hbetween hoffset).trans (suffix_trimStart cs), nofun⟩

/-! ### What they refuse -/

theorem read?_of_isName {e : Element} (he : e.isName = true) (hcs : ∀ c ∈ cs.head?, c.isAlpha = false) :
    e.read? p cs = none := by
  cases e with
  | monthName => exact Option.map_eq_none_iff.mpr (readName?_eq_none (by decide) hcs)
  | weekdayName => exact Option.map_eq_none_iff.mpr (readName?_eq_none (by decide) hcs)
  | _ => cases he

theorem read?_of_stopsDigits {e : Element} (he : e.stopsDigits = true) (hcs : ∀ c ∈ cs, c.isDigit = true) :
    e.read? p cs = none := by
  have hhead : ∀ c ∈ cs.head?, c.isAlpha = false := by
    intro c hc
    have hbounds := Text.toNat_of_isDigit (hcs c (List.mem_of_head? hc))
    exact isAlpha_of_lt (by omega)
  cases e with
  | literal c =>
    refine Option.map_eq_none_iff.mpr (Option.eq_none_iff_forall_ne_some.mpr fun r hr => ?_)
    have hc : c.isDigit = true := hcs c (eq_cons_of_readChar? hr ▸ List.mem_cons_self)
    rw [stopsDigits, hc] at he
    cases he
  | monthName => exact read?_of_isName rfl hhead
  | weekdayName => exact read?_of_isName rfl hhead
  | _ => cases he

end Element

/-! ### Patterns -/

namespace Pattern

/-- The pattern begins with a name, or with a number behind which there is more than digits. -/
def refusesNumerals : Pattern → Bool
  | [] => false
  | e :: es => e.isName || e.isNumber && es.any Element.stopsDigits

theorem readFront?_of_digits {pattern : Pattern} (h : pattern.any Element.stopsDigits = true)
    (hcs : ∀ c ∈ cs, c.isDigit = true) : pattern.readFront? p cs = none := by
  induction pattern generalizing p cs with
  | nil => cases h
  | cons e es ih =>
    rw [readFront?]
    by_cases he : e.stopsDigits = true
    · rw [Element.read?_of_stopsDigits he hcs]
    · cases hread : e.read? p cs with
      | none => rfl
      | some found =>
        obtain ⟨p', rest⟩ := found
        have hes : es.any Element.stopsDigits = true := by
          rw [List.any_cons, Bool.or_eq_true] at h
          exact h.resolve_left he
        obtain ⟨hsuffix, -⟩ := Element.suffix_of_read? hread
        exact ih hes fun c hc => hcs c (hsuffix.subset hc)

end Pattern

/-- No notation reads a text, but for that of numerals perhaps. -/
structure OnlyNumeral (cs : List Char) : Prop where
  rfc3339?_eq : rfc3339? cs = none
  rfc2822?_eq : rfc2822? cs = none
  zoned?_eq : ∀ pattern ∈ zonedPatterns, pattern.zoned? cs = none
  naive?_eq : ∀ pattern ∈ naivePatterns, pattern.naive? cs = none
  stamp?_eq : ∀ year, stamp? year cs = none

theorem OnlyNumeral.ofTrimmed?_eq (h : OnlyNumeral cs) (year : Int) : Timestamp.ofTrimmed? year cs = numeral? cs := by
  have hzoned : zonedPatterns.findSome? (·.zoned? cs) = none := List.findSome?_eq_none_iff.mpr h.zoned?_eq
  have hnaive : naivePatterns.findSome? (·.naive? cs) = none := List.findSome?_eq_none_iff.mpr h.naive?_eq
  rw [Timestamp.ofTrimmed?, h.rfc3339?_eq, h.rfc2822?_eq, hzoned, hnaive, h.stamp?_eq year]
  rfl

end Time

/-! ### Numerals -/

theorem Text.dropWhile_isBlank {cs : List Char} (h : ∀ c ∈ cs, isBlank c = false) : cs.dropWhile isBlank = cs := by
  rw [List.dropWhile_eq_self_iff]
  intro hpos
  exact Bool.eq_false_iff.mp (h _ (List.getElem_mem hpos))

namespace Numeral

variable (s : Numeral)

/-- Every character of a numeral stands before the letters, and none is a blank. -/
theorem bounds_of_mem_chars : ∀ c ∈ s.chars, 0x20 < c.toNat ∧ c.toNat < 0x41 := by
  refine List.forall_mem_append.mpr ⟨?_, ?_⟩
  · cases s.sign with
    | absent => exact List.forall_mem_nil _
    | plus => exact List.forall_mem_singleton.mpr (by decide)
    | minus => exact List.forall_mem_singleton.mpr (by decide)
  · intro c hc
    have hbounds := Text.toNat_of_isDigit (s.isDigit_of_mem c hc)
    omega

theorem head_not_isAlpha : ∀ c ∈ s.chars.head?, c.isAlpha = false := fun c hc =>
  Time.isAlpha_of_lt (s.bounds_of_mem_chars c (List.mem_of_head? hc)).2

/-- Behind its first character, a numeral has digits only. -/
theorem isDigit_of_suffix {rest : List Char} (hsuffix : rest <:+ s.chars) (hlt : rest.length < s.chars.length) :
    ∀ c ∈ rest, c.isDigit = true := by
  have hle : rest.length ≤ s.digits.length := by
    have hsign : s.sign.chars.length ≤ 1 := by cases s.sign <;> decide
    rw [chars, List.length_append] at hlt
    omega
  have hdigits : rest <:+ s.digits := List.suffix_of_suffix_length_le hsuffix (List.suffix_append _ _) hle
  exact fun c hc => s.isDigit_of_mem c (hdigits.subset hc)

theorem read?_of_refuses {pattern : Time.Pattern} (h : pattern.refusesNumerals = true) :
    pattern.read? s.chars = none := by
  cases pattern with
  | nil => cases h
  | cons e es =>
    have hfront : Time.Pattern.readFront? (e :: es) {} s.chars = none := by
      rw [Time.Pattern.readFront?]
      rcases (Bool.or_eq_true _ _).mp h with hname | hnumber
      · rw [Time.Element.read?_of_isName hname s.head_not_isAlpha]
      · obtain ⟨he, hes⟩ := (Bool.and_eq_true _ _).mp hnumber
        cases hread : e.read? {} s.chars with
        | none => rfl
        | some found =>
          obtain ⟨p, rest⟩ := found
          obtain ⟨hsuffix, hlt⟩ := Time.Element.suffix_of_read? hread
          exact Time.Pattern.readFront?_of_digits hes (s.isDigit_of_suffix hsuffix (hlt he))
    rw [Time.Pattern.read?, hfront]

theorem isBlank_of_mem_chars : ∀ c ∈ s.chars, Text.isBlank c = false := by
  intro c hc
  obtain ⟨hlow, hhigh⟩ := s.bounds_of_mem_chars c hc
  exact Text.isBlank_of_visible hlow (by omega)

theorem trimStart_chars : Text.trimStart s.chars = s.chars := Text.dropWhile_isBlank s.isBlank_of_mem_chars

theorem trim_chars : Text.trim s.chars = s.chars := by
  have hreverse : ∀ c ∈ s.chars.reverse, Text.isBlank c = false := fun c hc =>
    s.isBlank_of_mem_chars c (List.mem_reverse.mp hc)
  rw [Text.trim, s.trimStart_chars, Text.dropWhile_isBlank hreverse, List.reverse_reverse]

/-- A numeral has a hyphen at its front only. -/
theorem rfc3339?_chars : Time.rfc3339? s.chars = none := by
  refine Option.eq_none_iff_forall_ne_some.mpr fun t ht => ?_
  obtain ⟨year, month, day, hour, minute, second, mark, -, back, -, hcs⟩ := Time.exists_numbers_of_rfc3339? ht
  have hlt := congrArg List.length hcs
  rw [List.length_append, year.length_chars] at hlt
  have hdigits := s.isDigit_of_suffix (hcs ▸ List.suffix_append year.chars _) (by omega)
  exact absurd (hdigits '-' List.mem_cons_self) (by decide)

/-- The day takes digits, and no blank is behind it. -/
theorem rfc2822?_chars : Time.rfc2822? s.chars = none := by
  have hread : Time.readMailDate? s.chars = none := by
    refine Option.eq_none_iff_forall_ne_some.mpr fun found hfound => ?_
    have hweekday : Time.readWeekday? s.chars = some (none, s.chars) := by
      rw [Time.readWeekday?, Time.readName?_eq_none (by decide) s.head_not_isAlpha]
    rw [Time.readMailDate?, s.trimStart_chars, hweekday] at hfound
    obtain ⟨_, hfront, hback⟩ := Option.bind_eq_some_iff.mp hfound
    cases hfront
    obtain ⟨⟨day, rest⟩, hday, hmonth⟩ := Option.bind_eq_some_iff.mp hback
    obtain ⟨_, hblanks, -⟩ := Option.bind_eq_some_iff.mp hmonth
    rw [s.trimStart_chars] at hday
    obtain ⟨hsuffix, hlength⟩ := Time.suffix_of_readDigits? hday
    have hdigits := s.isDigit_of_suffix hsuffix (by omega)
    cases rest with
    | nil => cases hblanks
    | cons d r =>
      have hbounds := Text.toNat_of_isDigit (hdigits d List.mem_cons_self)
      rw [Time.readBlanks?, Text.isBlank_of_visible (by omega) (by omega)] at hblanks
      cases hblanks
  rw [Time.rfc2822?, hread]

/-- **No notation before that of numerals reads one**, however many digits it has. -/
theorem onlyNumeral_chars : Time.OnlyNumeral s.chars := by
  have hpatterns : ∀ pattern ∈ Time.stampPattern :: (Time.zonedPatterns ++ Time.naivePatterns),
      pattern.refusesNumerals = true := by decide
  obtain ⟨hstamp, hothers⟩ := List.forall_mem_cons.mp hpatterns
  obtain ⟨hzoned, hnaive⟩ := List.forall_mem_append.mp hothers
  constructor
  · exact s.rfc3339?_chars
  · exact s.rfc2822?_chars
  · intro pattern hpattern
    rw [Time.Pattern.zoned?, s.read?_of_refuses (hzoned pattern hpattern), Option.bind_none]
  · intro pattern hpattern
    rw [Time.Pattern.naive?, s.read?_of_refuses (hnaive pattern hpattern), Option.bind_none]
  · intro year
    rw [Time.stamp?, s.trimStart_chars, s.read?_of_refuses hstamp, Option.bind_none]

/-- So as a time, it is a numeral. -/
theorem ofText?_chars (year : Int) : Time.Timestamp.ofText? year (String.ofList s.chars) = Time.numeral? s.chars := by
  have hne : s.chars ≠ [] := List.append_ne_nil_of_right_ne_nil _ s.digits_ne_nil
  obtain ⟨c, r, hcr⟩ := List.exists_cons_of_ne_nil hne
  rw [Time.Timestamp.ofText?, String.toList_ofList, s.trim_chars, hcr]
  show Time.Timestamp.ofTrimmed? year (c :: r) = _
  rw [← hcr, s.onlyNumeral_chars.ofTrimmed?_eq]

end Numeral

/-- **An integer has one time**, whether a text or a number says it: as far as 64 bits hold it, it is read as a number
of a JSON text, wherever it stands there, and it is the Unix time that is the nearest double. For no notation but that
of numerals reads digits, with a sign or without. -/
theorem RawValue.time?_integer {n : Int} (hlow : -2 ^ 63 ≤ n) (hhigh : n < 2 ^ 64) (year : Int) :
    (∀ rest, Json.EndsNumber rest →
        Json.Token.read? ((toString n).toList ++ rest) = some (.scalar (.integer n), rest)) ∧
      (RawValue.ofJson (.scalar (.integer n))).time? year = Time.Timestamp.ofEpoch? (Binary64.nearest n) ∧
      (RawValue.text (toString n)).time? year = Time.Timestamp.ofEpoch? (Binary64.nearest n) ∧
      ∀ s : Numeral, Time.OnlyNumeral s.chars := by
  refine ⟨fun rest => Json.read?_toString_append hlow hhigh, rfl, ?_, Numeral.onlyNumeral_chars⟩
  have htext : String.ofList (Numeral.ofInt n).chars = toString n := by
    rw [Numeral.chars_ofInt, String.ofList_toList]
  show Time.Timestamp.ofText? year (toString n) = _
  rw [← htext, Numeral.ofText?_chars, Numeral.chars_ofInt, Time.numeral?,
    Numeral.toBinary64?_parse?_toString (by omega), Option.bind_some]

theorem RawValue.time?_integer_millis :
    (-2 ^ 63 ≤ (1706585346691 : Int) ∧ (1706585346691 : Int) < 2 ^ 64) ∧
      (RawValue.text (toString (1706585346691 : Int))).time? 2025 = some ⟨1706585346, 691000000, 0⟩ := by
  refine ⟨by decide, ?_⟩
  obtain ⟨-, -, htext, -⟩ := RawValue.time?_integer (n := 1706585346691) (by decide) (by decide) 2025
  rw [htext]
  decide +kernel

end LegibleLog
