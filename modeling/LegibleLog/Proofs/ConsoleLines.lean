import LegibleLog.Proofs.ConsoleStamps

/-!
# Console lines and their parts

* `ConsoleLine` — the parts of a console line, each well formed, with the blanks between them;
* `ZapLine.isLevel_iff`, `ZapLine.isCaller_iff` — the words at the front;
* `ZapLine.splitAtBody?_eq_some_iff`, `ZapLine.splitMessage?_eq_some_iff` — where the body begins;
* `ZapLine.ofBytes?_eq_some_iff` — a line is taken apart into just the parts that it is joined of.
-/

namespace LegibleLog

/-! ### The parts of a line -/

/-- What stands between two words. -/
structure Blanks where
  bytes : List UInt8
  ne_nil : bytes ≠ []
  isAsciiBlank_of_mem : ∀ b ∈ bytes, Text.isAsciiBlank b = true

/-- One space. -/
def Blanks.space : Blanks := ⟨[' '.toUInt8], List.cons_ne_nil _ _, List.forall_mem_singleton.mpr (by decide)⟩

/-- What a message does not have: a tab and an opening brace. -/
def bodyMark : List UInt8 := ['\t'.toUInt8, '\x7b'.toUInt8]

/-- The parts of a console line, and the blanks between them. -/
structure ConsoleLine where
  stamp : ZapLine.Stamp
  timestamp : Time.Timestamp
  instant?_stamp : stamp.instant? = some timestamp
  afterStamp : Blanks
  /-- The level as it is written. -/
  word : List Char
  word_ne_nil : word ≠ []
  isAlpha_of_mem_word : ∀ c ∈ word, c.isAlpha = true
  afterWord : Blanks
  caller : String
  /-- What stands before the last colon of the caller. -/
  place : List UInt8
  number : List UInt8
  encode_caller : Text.encode caller = place ++ ':'.toUInt8 :: number
  not_blank_of_mem_place : ∀ b ∈ place, Text.isAsciiBlank b = false
  number_ne_nil : number ≠ []
  isDigit_of_mem_number : ∀ b ∈ number, ZapLine.isDigit b = true
  afterCaller : Blanks
  /-- What stands up to the tab before the body; a blank at its beginning is one of those before it. -/
  message : String
  not_blank_of_head_message : ∀ b ∈ (Text.encode message).head?, Text.isAsciiBlank b = false
  lineFeed_notMem_message : '\n'.toUInt8 ∉ Text.encode message
  not_mark_message : ¬ bodyMark <:+: Text.encode message
  body : List UInt8
  head?_body : body.head? = some '\x7b'.toUInt8
  getLast?_body : body.getLast? = some '\x7d'.toUInt8
  lineFeed_notMem_body : '\n'.toUInt8 ∉ body

namespace ConsoleLine

/-- The parts in a line. A tab stands before the body. -/
def bytes (p : ConsoleLine) : List UInt8 :=
  p.stamp.bytes ++ (p.afterStamp.bytes ++ (p.word.map Char.toUInt8 ++ (p.afterWord.bytes ++
    (Text.encode p.caller ++ (p.afterCaller.bytes ++ (Text.encode p.message ++ '\t'.toUInt8 :: p.body))))))

/-- What the parts say; the level is in lower case. -/
def zapLine (p : ConsoleLine) : ZapLine where
  timestamp := p.timestamp
  level := String.ofList (Text.asciiLower p.word)
  caller := p.caller
  message := p.message
  body := p.body

variable (p : ConsoleLine)

theorem isVisible_of_mem_word : ∀ c ∈ p.word, ZapLine.IsVisible c :=
  fun c hc => ZapLine.isVisible_of_isAlpha c (p.isAlpha_of_mem_word c hc)

theorem not_blank_of_mem_word : ∀ b ∈ p.word.map Char.toUInt8, Text.isAsciiBlank b = false :=
  ZapLine.not_blank_of_isVisible p.isVisible_of_mem_word

theorem not_blank_of_mem_caller : ∀ b ∈ Text.encode p.caller, Text.isAsciiBlank b = false := by
  rw [p.encode_caller, List.forall_mem_append, List.forall_mem_cons]
  refine ⟨p.not_blank_of_mem_place, by decide, fun b hb => Text.isAsciiBlank_of_visible b ?_⟩
  exact (ZapLine.isDigit_cases b (p.isDigit_of_mem_number b hb)).1

theorem message_eq_empty (h : Text.encode p.message = []) : p.message = "" := by
  rw [Text.encode_eq, Text.encodeChars_eq_nil_iff] at h
  exact String.toList_eq_nil_iff.mp h

end ConsoleLine

namespace ZapLine

/-! ### The words at the front -/

/-- A word goes up to the first blank, and the blanks up to what is none. -/
theorem splitWord_eq_iff {line word blanks rest : List UInt8} : splitWord line = (word, blanks, rest) ↔
    line = word ++ (blanks ++ rest) ∧ (∀ b ∈ word, Text.isAsciiBlank b = false) ∧
      (∀ b ∈ blanks, Text.isAsciiBlank b = true) ∧ (∀ b ∈ rest.head?, Text.isAsciiBlank b = false) ∧
      (rest ≠ [] → blanks ≠ []) := by
  constructor
  · intro h
    obtain ⟨hline, hblanks, hne⟩ := splitWord_cases line
    have hword : ∀ b ∈ (splitWord line).1, Text.isAsciiBlank b = false := by
      intro b hb
      simpa using List.mem_takeWhile_imp hb
    have hrest : ∀ b ∈ (splitWord line).2.2.head?, Text.isAsciiBlank b = false :=
      forall_head?_dropWhile Text.isAsciiBlank (line.dropWhile (! Text.isAsciiBlank ·))
    rw [h] at hline hblanks hne hword hrest
    exact ⟨hline, hword, hblanks, hrest, hne⟩
  · rintro ⟨rfl, hword, hblanks, hrest, hne⟩
    by_cases hnil : blanks = []
    · obtain rfl : rest = [] := by
        by_contra hrest
        exact hne hrest hnil
      subst hnil
      have hword' : ∀ b ∈ word, (! Text.isAsciiBlank b) = true := fun b hb => by rw [hword b hb]; rfl
      have hstop : ∀ b ∈ ([] : List UInt8).head?, (! Text.isAsciiBlank b) = false := by simp
      obtain ⟨htake, hdrop⟩ := takeWhile_append_eq hword' hstop
      rw [List.append_nil] at htake hdrop
      simp only [splitWord, List.append_nil, htake, hdrop]
      rfl
    · exact splitWord_append hword hnil hblanks hrest

theorem isLevel_iff {bytes : List UInt8} : isLevel bytes = true ↔
    ∃ word : List Char, word ≠ [] ∧ (∀ c ∈ word, c.isAlpha = true) ∧ word.map Char.toUInt8 = bytes := by
  simp only [isLevel, Bool.and_eq_true, Bool.not_eq_true', List.isEmpty_eq_false_iff, List.all_eq_true]
  constructor
  · rintro ⟨hne, hletters⟩
    exact ⟨bytes.map Char.ofUInt8, by simpa using hne, by simpa using hletters, map_toUInt8_ofUInt8 bytes⟩
  · rintro ⟨word, hne, hletters, rfl⟩
    refine ⟨by simpa using hne, List.forall_mem_map.mpr fun c hc => ?_⟩
    rw [ofUInt8_toUInt8 (isVisible_of_isAlpha c (hletters c hc))]
    exact hletters c hc

theorem isCaller_iff {bytes : List UInt8} : isCaller bytes = true ↔
    ∃ place number, bytes = place ++ ':'.toUInt8 :: number ∧ place ≠ [] ∧ number ≠ [] ∧
      ∀ b ∈ number, isDigit b = true := by
  constructor
  · intro h
    unfold isCaller at h
    rw [Bool.and_eq_true, decide_eq_true_eq] at h
    obtain ⟨hlen, hplace⟩ := h
    split at hplace
    · next colon b more hdrop =>
      obtain rfl := eq_of_beq hplace
      have hreverse := List.takeWhile_append_dropWhile (p := isDigit) (l := bytes.reverse)
      rw [hdrop] at hlen hreverse
      refine ⟨(b :: more).reverse, (bytes.reverse.takeWhile isDigit).reverse, ?_, by simp, ?_, ?_⟩
      · calc bytes = bytes.reverse.reverse := (List.reverse_reverse bytes).symm
          _ = (':'.toUInt8 :: b :: more).reverse ++ (bytes.reverse.takeWhile isDigit).reverse := by
            rw [← List.reverse_append, hreverse]
          _ = (b :: more).reverse ++ ':'.toUInt8 :: (bytes.reverse.takeWhile isDigit).reverse := by
            rw [List.reverse_cons, List.append_assoc, List.singleton_append]
      · intro hnil
        rw [List.reverse_eq_nil_iff.mp hnil, List.nil_append] at hreverse
        rw [hreverse, List.length_reverse] at hlen
        exact Nat.lt_irrefl _ hlen
      · intro b hb
        exact List.mem_takeWhile_imp (List.mem_reverse.mp hb)
    · cases hplace
  · rintro ⟨place, number, rfl, hplace, hnumber, hdigits⟩
    have hrun : ∀ b ∈ number.reverse, isDigit b = true := fun b hb => hdigits b (List.mem_reverse.mp hb)
    have hhead : ∀ b ∈ (':'.toUInt8 :: place.reverse).head?, isDigit b = false := by
      rintro b ⟨⟩
      decide
    have hdrop : (place ++ ':'.toUInt8 :: number).reverse.dropWhile isDigit = ':'.toUInt8 :: place.reverse := by
      rw [List.reverse_append, List.reverse_cons, List.append_assoc, List.singleton_append]
      exact (takeWhile_append_eq hrun hhead).2
    obtain ⟨b, more, hreverse⟩ := List.exists_cons_of_ne_nil (mt List.reverse_eq_nil_iff.mp hplace)
    have hlen := List.length_pos_iff.mpr hnumber
    unfold isCaller
    simp only [hdrop, hreverse, beq_self_eq_true, Bool.and_true, decide_eq_true_eq]
    have hplaceLen : (b :: more).length = place.length := by rw [← hreverse, List.length_reverse]
    simp only [List.length_cons, List.length_append] at hplaceLen ⊢
    omega

/-! ### Where the body begins -/

/-- The mark stands first where a tab is followed by a brace. -/
theorem bodyMark_prefix_cons_iff {b : UInt8} {bytes : List UInt8} :
    bodyMark <+: b :: bytes ↔ b = '\t'.toUInt8 ∧ bytes.head? = some '\x7b'.toUInt8 := by
  rw [bodyMark, List.cons_prefix_cons, eq_comm]
  refine and_congr_right fun _ => ?_
  cases bytes with
  | nil => simp
  | cons c bytes => simp [List.cons_prefix_cons, eq_comm]

theorem splitAtBody?_eq_some_iff {done bytes message body : List UInt8} :
    splitAtBody? done bytes = some (message, body) ↔
      ∃ front, message = done.reverse ++ front ∧ bytes = front ++ '\t'.toUInt8 :: body ∧
        body.head? = some '\x7b'.toUInt8 ∧ ¬ bodyMark <:+: front := by
  induction bytes generalizing done with
  | nil => simp [splitAtBody?]
  | cons b rest ih =>
    rw [splitAtBody?]
    split
    · next hmark =>
      rw [Bool.and_eq_true, beq_iff_eq, beq_iff_eq] at hmark
      obtain ⟨rfl, hhead⟩ := hmark
      constructor
      · intro h
        cases h
        exact ⟨[], (List.append_nil _).symm, rfl, hhead, by decide⟩
      · rintro ⟨front, rfl, hbytes, hbody, hfront⟩
        cases front with
        | nil =>
          obtain ⟨-, rfl⟩ := List.cons.inj hbytes
          rw [List.append_nil]
        | cons c front =>
          -- the mark would stand in front of the body's own
          obtain ⟨rfl, rfl⟩ := List.cons.inj hbytes
          refine absurd (List.IsPrefix.isInfix (bodyMark_prefix_cons_iff.mpr ⟨rfl, ?_⟩)) hfront
          cases front with
          | nil => cases hhead
          | cons d front => exact hhead
    · next hmark =>
      rw [Bool.and_eq_true, beq_iff_eq, beq_iff_eq] at hmark
      rw [ih]
      constructor
      · rintro ⟨front, rfl, rfl, hbody, hfront⟩
        refine ⟨b :: front, by simp, rfl, hbody, ?_⟩
        rw [List.infix_cons_iff, bodyMark_prefix_cons_iff]
        rintro (⟨rfl, hhead⟩ | hinfix)
        · refine hmark ⟨rfl, ?_⟩
          cases front with
          | nil => cases hhead
          | cons d front => exact hhead
        · exact hfront hinfix
      · rintro ⟨front, rfl, hbytes, hbody, hfront⟩
        cases front with
        | nil =>
          obtain ⟨rfl, rfl⟩ := List.cons.inj hbytes
          exact absurd ⟨rfl, hbody⟩ hmark
        | cons c front =>
          obtain ⟨rfl, rfl⟩ := List.cons.inj hbytes
          exact ⟨front, by simp, rfl, hbody, fun hinfix => hfront (List.infix_cons hinfix)⟩

theorem splitAtBody?_eq_none_iff {done bytes : List UInt8} :
    splitAtBody? done bytes = none ↔ ¬ bodyMark <:+: bytes := by
  induction bytes generalizing done with
  | nil => simp [splitAtBody?, bodyMark]
  | cons b rest ih =>
    rw [splitAtBody?, List.infix_cons_iff, bodyMark_prefix_cons_iff, not_or]
    split
    · next hmark =>
      rw [Bool.and_eq_true, beq_iff_eq, beq_iff_eq] at hmark
      constructor
      · intro h
        cases h
      · rintro ⟨hfirst, -⟩
        exact absurd hmark hfirst
    · next hmark =>
      rw [Bool.and_eq_true, beq_iff_eq, beq_iff_eq] at hmark
      rw [ih, and_iff_right hmark]

theorem splitMessage?_cases {blanks rest message body : List UInt8} :
    splitMessage? blanks rest = some (message, body) ↔
      '\n'.toUInt8 ∉ rest ∧ rest.getLast? = some '\x7d'.toUInt8 ∧
        ((rest = message ++ '\t'.toUInt8 :: body ∧ body.head? = some '\x7b'.toUInt8 ∧ ¬ bodyMark <:+: message) ∨
          (¬ bodyMark <:+: rest ∧ 2 ≤ blanks.length ∧ blanks.getLast? = some '\t'.toUInt8 ∧
            rest.head? = some '\x7b'.toUInt8 ∧ message = [] ∧ body = rest)) := by
  have hsplit : splitAtBody? [] rest = some (message, body) ↔
      rest = message ++ '\t'.toUInt8 :: body ∧ body.head? = some '\x7b'.toUInt8 ∧ ¬ bodyMark <:+: message := by
    rw [splitAtBody?_eq_some_iff]
    simp
  have hnone : splitAtBody? [] rest = none ↔ ¬ bodyMark <:+: rest := splitAtBody?_eq_none_iff
  have hguard : (rest.contains '\n'.toUInt8 || rest.getLast? != some '\x7d'.toUInt8) = true ↔
      ¬ ('\n'.toUInt8 ∉ rest ∧ rest.getLast? = some '\x7d'.toUInt8) := by
    rw [Bool.or_eq_true, List.contains_iff_mem, bne_iff_ne, not_and_or, not_not]
  rw [← hsplit, ← hnone, ← and_assoc, splitMessage?]
  split
  · next hends =>
    constructor
    · intro h
      cases h
    · rintro ⟨hpass, -⟩
      exact absurd hpass (hguard.mp hends)
  · next hends =>
    rw [and_iff_right (not_not.mp (mt hguard.mpr hends))]
    cases splitAtBody? [] rest with
    | some found => simp
    | none =>
      simp only [Option.ite_none_right_eq_some, Bool.and_eq_true, decide_eq_true_eq, beq_iff_eq, Option.some.injEq,
        Prod.mk.injEq, true_and, reduceCtorEq, false_or, and_assoc, eq_comm (a := []), eq_comm (a := rest)]

/-- What follows the caller: blanks, a message and a body behind a tab. -/
theorem splitMessage?_eq_some_iff {blanks rest message body : List UInt8}
    (hblanks : ∀ b ∈ blanks, Text.isAsciiBlank b = true) (hne : rest ≠ [] → blanks ≠ [])
    (hrest : ∀ b ∈ rest.head?, Text.isAsciiBlank b = false) :
    splitMessage? blanks rest = some (message, body) ↔
      ∃ gap : Blanks, blanks ++ rest = gap.bytes ++ (message ++ '\t'.toUInt8 :: body) ∧
        (∀ b ∈ message.head?, Text.isAsciiBlank b = false) ∧ '\n'.toUInt8 ∉ message ∧ ¬ bodyMark <:+: message ∧
        body.head? = some '\x7b'.toUInt8 ∧ body.getLast? = some '\x7d'.toUInt8 ∧ '\n'.toUInt8 ∉ body ∧
        (message = [] → ¬ bodyMark <:+: body) := by
  have htab : Text.isAsciiBlank '\t'.toUInt8 = true := by decide
  have hbrace : Text.isAsciiBlank '\x7b'.toUInt8 = false := by decide
  rw [splitMessage?_cases]
  constructor
  · rintro ⟨hfeed, hlast, ⟨rfl, hbody, hmark⟩ | ⟨hmark, hlen, hend, hbody, rfl, rfl⟩⟩
    · obtain ⟨hfeed, -, hfeed'⟩ : '\n'.toUInt8 ∉ message ∧ _ ∧ '\n'.toUInt8 ∉ body := by
        simpa only [List.mem_append, List.mem_cons, not_or] using hfeed
      have hne' : body ≠ [] := by
        rintro rfl
        cases hbody
      cases message with
      | nil =>
        -- the tab would be one of the blanks
        have hblank := hrest _ rfl
        rw [htab] at hblank
        cases hblank
      | cons c message =>
        refine ⟨⟨blanks, hne (by simp), hblanks⟩, rfl, ?_, hfeed, hmark, hbody, ?_, hfeed', fun hnil => nomatch hnil⟩
        · rintro b ⟨⟩
          exact hrest c rfl
        · rwa [List.getLast?_append_of_ne_nil _ (List.cons_ne_nil _ _), List.getLast?_cons_of_ne_nil hne'] at hlast
    · obtain ⟨front, rfl⟩ := List.getLast?_eq_some_iff.mp hend
      have hfront : front ≠ [] := by
        rintro rfl
        simp at hlen
      refine ⟨⟨front, hfront, fun b hb => hblanks b (List.mem_append_left _ hb)⟩, by simp, by simp, by simp, by decide,
        hbody, hlast, hfeed, fun _ => hmark⟩
  · rintro ⟨gap, hline, hhead, hfeed, hmark, hbody, hlast, hfeed', hempty⟩
    cases message with
    | nil =>
      have hgap : ∀ b ∈ gap.bytes ++ ['\t'.toUInt8], Text.isAsciiBlank b = true :=
        List.forall_mem_append.mpr ⟨gap.isAsciiBlank_of_mem, List.forall_mem_singleton.mpr htab⟩
      have hstop : ∀ b ∈ body.head?, Text.isAsciiBlank b = false := by
        rw [hbody]
        rintro b ⟨⟩
        exact hbrace
      have hline' : blanks ++ rest = (gap.bytes ++ ['\t'.toUInt8]) ++ body := by
        rw [hline, List.append_assoc]
        rfl
      obtain ⟨rfl, rfl⟩ := run_unique hblanks hrest hgap hstop hline'
      have hlen := List.length_pos_iff.mpr gap.ne_nil
      refine ⟨hfeed', hlast, .inr ⟨hempty rfl, ?_, List.getLast?_concat, hbody, rfl, rfl⟩⟩
      rw [List.length_append, List.length_singleton]
      omega
    | cons c message =>
      have hstop : ∀ b ∈ ((c :: message) ++ '\t'.toUInt8 :: body).head?, Text.isAsciiBlank b = false := hhead
      obtain ⟨rfl, rfl⟩ := run_unique hblanks hrest gap.isAsciiBlank_of_mem hstop hline
      have hne' : body ≠ [] := by
        rintro rfl
        cases hbody
      refine ⟨?_, ?_, .inl ⟨rfl, hbody, hmark⟩⟩
      · have htabBody : '\n'.toUInt8 ∉ '\t'.toUInt8 :: body := List.not_mem_cons_of_ne_of_not_mem (by decide) hfeed'
        exact List.not_mem_append hfeed htabBody
      · rwa [List.getLast?_append_of_ne_nil _ (List.cons_ne_nil _ _), List.getLast?_cons_of_ne_nil hne']

/-! ### The whole line -/

/-- The steps in which a line is taken apart. -/
theorem ofBytes?_steps {line : List UInt8} {zap : ZapLine} : ofBytes? line = some zap ↔
    ∃ stamp blanks₁ rest₁ level blanks₂ rest₂ caller blanks₃ rest₃ message,
      splitWord line = (stamp, blanks₁, rest₁) ∧ splitWord rest₁ = (level, blanks₂, rest₂) ∧
        splitWord rest₂ = (caller, blanks₃, rest₃) ∧ splitMessage? blanks₃ rest₃ = some (message, zap.body) ∧
        isStamp stamp = true ∧ isLevel level = true ∧ isCaller caller = true ∧
        time? (stamp.map Char.ofUInt8) = some zap.timestamp ∧
        String.ofList (Text.asciiLower (level.map Char.ofUInt8)) = zap.level ∧
        Text.decode? caller = some zap.caller ∧ Text.decode? message = some zap.message := by
  unfold ofBytes?
  simp only [Option.bind_eq_bind, Option.bind_none, Option.pure_def, Option.ite_none_left_eq_some,
    Option.bind_eq_some_iff, Option.some.injEq, Prod.exists, Bool.not_eq_true', Bool.not_eq_false]
  constructor
  · rintro ⟨hstamp, hlevel, hcaller, message, body, hsplit, timestamp, htime, caller, hcallerText, text, hmessage, rfl⟩
    exact ⟨_, _, _, _, _, _, _, _, _, message, rfl, rfl, rfl, hsplit, hstamp, hlevel, hcaller, htime, rfl, hcallerText,
      hmessage⟩
  · rintro ⟨stamp, _, _, level, _, _, caller, _, _, message, hline, hrest₁, hrest₂, hsplit, hstamp, hlevel, hcaller,
      htime, hword, hcallerText, hmessage⟩
    simp only [hline, hrest₁, hrest₂]
    refine ⟨hstamp, hlevel, hcaller, message, zap.body, hsplit, zap.timestamp, htime, zap.caller, hcallerText,
      zap.message, hmessage, ?_⟩
    rw [hword]

/-- **Joined.** A line that is joined of parts is taken apart into these, unless nothing stands before the colon of the
caller, or there is no message and the mark is in the body. -/
theorem ofBytes?_bytes (p : ConsoleLine) (hplace : p.place ≠ [])
    (hempty : p.message = "" → ¬ bodyMark <:+: p.body) : ofBytes? p.bytes = some p.zapLine := by
  let rest := p.afterCaller.bytes ++ (Text.encode p.message ++ '\t'.toUInt8 :: p.body)
  -- without a message, the blanks go on up to the body
  let blanks := rest.takeWhile Text.isAsciiBlank
  let more := rest.dropWhile Text.isAsciiBlank
  have hrest : blanks ++ more = rest := List.takeWhile_append_dropWhile
  have hblanks : ∀ b ∈ blanks, Text.isAsciiBlank b = true := fun _ => List.mem_takeWhile_imp
  have hmore : ∀ b ∈ more.head?, Text.isAsciiBlank b = false := forall_head?_dropWhile Text.isAsciiBlank rest
  have hne : blanks ≠ [] := by
    obtain ⟨b, gap, hgap⟩ := List.exists_cons_of_ne_nil p.afterCaller.ne_nil
    have hb := p.afterCaller.isAsciiBlank_of_mem b (hgap ▸ List.mem_cons_self)
    simp [blanks, rest, hgap, hb]
  have hsplit : splitMessage? blanks more = some (Text.encode p.message, p.body) := by
    refine (splitMessage?_eq_some_iff hblanks (fun _ => hne) hmore).mpr ⟨p.afterCaller, hrest,
      p.not_blank_of_head_message, p.lineFeed_notMem_message, p.not_mark_message, p.head?_body, p.getLast?_body,
      p.lineFeed_notMem_body, fun hnil => hempty ?_⟩
    exact p.message_eq_empty hnil
  have hstamp : splitWord p.bytes = (p.stamp.bytes, p.afterStamp.bytes, p.word.map Char.toUInt8 ++
      (p.afterWord.bytes ++ (Text.encode p.caller ++ rest))) :=
    splitWord_append p.stamp.not_blank_of_mem_bytes p.afterStamp.ne_nil p.afterStamp.isAsciiBlank_of_mem
      (forall_head?_append (by simpa using p.word_ne_nil) p.not_blank_of_mem_word)
  have hword : splitWord (p.word.map Char.toUInt8 ++ (p.afterWord.bytes ++ (Text.encode p.caller ++ rest))) =
      (p.word.map Char.toUInt8, p.afterWord.bytes, Text.encode p.caller ++ rest) :=
    splitWord_append p.not_blank_of_mem_word p.afterWord.ne_nil p.afterWord.isAsciiBlank_of_mem
      (forall_head?_append (by simp [p.encode_caller]) p.not_blank_of_mem_caller)
  have hcaller : splitWord (Text.encode p.caller ++ rest) = (Text.encode p.caller, blanks, more) := by
    rw [← hrest]
    exact splitWord_append p.not_blank_of_mem_caller hne hblanks hmore
  refine ofBytes?_steps.mpr ⟨_, _, _, _, _, _, _, _, _, _, hstamp, hword, hcaller, hsplit, isStamp_iff.mpr ⟨_, rfl⟩,
    isLevel_iff.mpr ⟨p.word, p.word_ne_nil, p.isAlpha_of_mem_word, rfl⟩,
    isCaller_iff.mpr ⟨p.place, p.number, p.encode_caller, hplace, p.number_ne_nil, p.isDigit_of_mem_number⟩, ?_, ?_,
    Text.decode?_encode _, Text.decode?_encode _⟩
  · rw [p.stamp.map_ofUInt8_bytes, time?_chars]
    exact p.instant?_stamp
  · rw [map_ofUInt8_toUInt8 p.isVisible_of_mem_word]
    rfl

/-- **Taken apart.** A line that is taken apart is joined of parts. -/
theorem exists_of_ofBytes? {line : List UInt8} {zap : ZapLine} (h : ofBytes? line = some zap) :
    ∃ p : ConsoleLine, p.place ≠ [] ∧ (p.message = "" → ¬ bodyMark <:+: p.body) ∧ p.bytes = line ∧
      p.zapLine = zap := by
  obtain ⟨stamp, blanks₁, rest₁, level, blanks₂, rest₂, caller, blanks₃, rest₃, message, hline, hrest₁, hrest₂, hsplit,
    hstamp, hlevel, hcaller, htime, hword, hcallerText, hmessage⟩ := ofBytes?_steps.mp h
  obtain ⟨rfl, -, hblanks₁, -, hne₁⟩ := splitWord_eq_iff.mp hline
  obtain ⟨rfl, -, hblanks₂, -, hne₂⟩ := splitWord_eq_iff.mp hrest₁
  obtain ⟨rfl, hvisible, hblanks₃, hhead₃, hne₃⟩ := splitWord_eq_iff.mp hrest₂
  obtain ⟨stamp, rfl⟩ := isStamp_iff.mp hstamp
  obtain ⟨word, hletters, halpha, rfl⟩ := isLevel_iff.mp hlevel
  obtain ⟨place, number, rfl, hplace, hnumber, hdigits⟩ := isCaller_iff.mp hcaller
  obtain ⟨gap, hrest, hhead, hfeed, hmark, hbrace, hlast, hfeed', hempty⟩ :=
    (splitMessage?_eq_some_iff hblanks₃ hne₃ hhead₃).mp hsplit
  obtain rfl := Text.encode_of_decode? hmessage
  have hcallerBytes := Text.encode_of_decode? hcallerText
  rw [stamp.map_ofUInt8_bytes, time?_chars] at htime
  rw [map_ofUInt8_toUInt8 fun c hc => isVisible_of_isAlpha c (halpha c hc)] at hword
  let p : ConsoleLine := {
    stamp := stamp
    timestamp := zap.timestamp
    instant?_stamp := htime
    afterStamp := ⟨blanks₁, hne₁ (by simp [hletters]), hblanks₁⟩
    word := word
    word_ne_nil := hletters
    isAlpha_of_mem_word := halpha
    afterWord := ⟨blanks₂, hne₂ (by simp), hblanks₂⟩
    caller := zap.caller
    place := place
    number := number
    encode_caller := hcallerBytes
    not_blank_of_mem_place := fun b hb => hvisible b (List.mem_append_left _ hb)
    number_ne_nil := hnumber
    isDigit_of_mem_number := hdigits
    afterCaller := gap
    message := zap.message
    not_blank_of_head_message := hhead
    lineFeed_notMem_message := hfeed
    not_mark_message := hmark
    body := zap.body
    head?_body := hbrace
    getLast?_body := hlast
    lineFeed_notMem_body := hfeed' }
  refine ⟨p, hplace, ?_, ?_, ?_⟩
  · intro hnil
    have hmessage : zap.message = "" := hnil
    exact hempty (by rw [hmessage]; rfl)
  · simp only [ConsoleLine.bytes, p, hcallerBytes, ← hrest]
  · simp only [ConsoleLine.zapLine, p, hword]

/-- **A console line is its parts.** What a line is taken apart into are well-formed parts of which it is joined; and of
a line that is joined of such parts, whatever blanks stand between them, just these come back, when something stands
before the colon of the caller, and when there is a message. Without one, the mark must not be in the body. -/
theorem ofBytes?_eq_some_iff {line : List UInt8} {zap : ZapLine} : ofBytes? line = some zap ↔
    ∃ p : ConsoleLine, p.place ≠ [] ∧ (p.message = "" → ¬ bodyMark <:+: p.body) ∧ p.bytes = line ∧ p.zapLine = zap := by
  constructor
  · exact exists_of_ofBytes?
  · rintro ⟨p, hplace, hempty, rfl, rfl⟩
    exact ofBytes?_bytes p hplace hempty

end ZapLine

namespace ConsoleLine

/-- Parts with nothing before the colon of the caller. -/
def withoutPlace : ConsoleLine where
  stamp := {
    year := ⟨"2021".toList, by decide, List.all_eq_true.mp (by decide)⟩
    month := ⟨"02".toList, by decide, List.all_eq_true.mp (by decide)⟩
    day := ⟨"05".toList, by decide, List.all_eq_true.mp (by decide)⟩
    hour := ⟨"12".toList, by decide, List.all_eq_true.mp (by decide)⟩
    minute := ⟨"41".toList, by decide, List.all_eq_true.mp (by decide)⟩
    second := ⟨"48".toList, by decide, List.all_eq_true.mp (by decide)⟩
    fraction := []
    isDigit_of_mem_fraction := List.forall_mem_nil _
    zone := .utc }
  timestamp := ⟨1612528908, 0, 0⟩
  instant?_stamp := by decide +kernel
  afterStamp := .space
  word := "INFO".toList
  word_ne_nil := by decide
  isAlpha_of_mem_word := List.all_eq_true.mp (by decide)
  afterWord := .space
  caller := ":18"
  place := []
  number := ['1'.toUInt8, '8'.toUInt8]
  encode_caller := by decide +kernel
  not_blank_of_mem_place := List.forall_mem_nil _
  number_ne_nil := by decide
  isDigit_of_mem_number := List.all_eq_true.mp (by decide)
  afterCaller := .space
  message := "hi"
  not_blank_of_head_message := by
    have hhead : (Text.encode "hi").head? = some 'h'.toUInt8 := by decide +kernel
    rw [hhead]
    rintro b ⟨⟩
    decide
  lineFeed_notMem_message := by decide +kernel
  not_mark_message := by decide +kernel
  body := ['\x7b'.toUInt8, '\x7d'.toUInt8]
  head?_body := by decide
  getLast?_body := by decide
  lineFeed_notMem_body := by decide

/-- The line that is joined of them is not taken apart, though it has a message. -/
theorem withoutPlace_not_split :
    withoutPlace.bytes = Text.encode "2021-02-05T12:41:48Z INFO :18 hi\t\x7b\x7d" ∧ withoutPlace.message = "hi" ∧
      ZapLine.ofBytes? withoutPlace.bytes = none := by
  have hline : ZapLine.ofBytes? withoutPlace.bytes = none := by decide +kernel
  exact ⟨by decide +kernel, rfl, hline⟩

end ConsoleLine

end LegibleLog
