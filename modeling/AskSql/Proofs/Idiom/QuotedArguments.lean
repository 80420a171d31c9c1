import AskSql.Proofs.Idiom.Canonical
import AskSql.Proofs.Idiom.Plain
import AskSql.Proofs.Sql.Cuts

/-! Quoted names in the arguments of an idiom.  A call that spells an idiom is written anew from the
expression inside it.  The other arguments tell which idiom it is and have no quoted name in them,
or they are that expression once more. -/

namespace AskSql

open Text Sql Idiom

variable {text rest : List Char} {names more : List QuotedName}

namespace Sql

/-! ### Texts that carry names -/

theorem NamesIn.carries (h : NamesIn text names) : Carries names text :=
  ⟨names, h, fun _ hname => hname⟩

theorem Carries.mono (h : Carries names text) (hsub : more ⊆ names) : Carries more text := by
  obtain ⟨found, hfound, hnames⟩ := h
  exact ⟨found, hfound, List.Subset.trans hsub hnames⟩

theorem Carries.append {front back : List Char} (hf : Carries names front)
    (hb : Carries more back) :
    Carries (names ++ more) (front ++ back) := by
  obtain ⟨found, hfound, hnames⟩ := hf
  obtain ⟨later, hlater, hmore⟩ := hb
  exact ⟨found ++ later, hfound.append hlater, List.append_subset.2
    ⟨List.Subset.trans hnames (List.subset_append_left _ _),
      List.Subset.trans hmore (List.subset_append_right _ _)⟩⟩

theorem carries_of_bare (h : ∀ c ∈ text, isBare c = true) : Carries [] text :=
  (NamesIn.of_bare h).carries

/-- A text without what opens a name carries none. -/
theorem Carries.eq_nil (h : Carries names text) (hopens : ∀ c ∈ text, opensName c = false) :
    names = [] := by
  obtain ⟨found, hfound, hnames⟩ := h
  rw [hfound.eq_nil hopens] at hnames
  exact List.subset_nil.1 hnames

/-! ### Steps of a scanner -/

/-- `rest` is `text` without some characters outside quotes at its front. -/
def Sheds (text rest : List Char) : Prop :=
  ∃ front, text = front ++ rest ∧ ∀ c ∈ front, isBare c = true

theorem Sheds.trans {last : List Char} (h : Sheds text rest) (h' : Sheds rest last) :
    Sheds text last := by
  obtain ⟨front, rfl, hfront⟩ := h
  obtain ⟨more, rfl, hmore⟩ := h'
  refine ⟨front ++ more, by simp, fun c hc => ?_⟩
  rcases List.mem_append.1 hc with hc | hc
  · exact hfront c hc
  · exact hmore c hc

theorem Sheds.namesIn (h : Sheds text rest) (hnames : NamesIn text names) : NamesIn rest names := by
  obtain ⟨front, rfl, hfront⟩ := h
  exact hnames.drop hfront

/-- What is shed off a text read backwards stands at its end. -/
theorem Sheds.namesIn_reverse (h : Sheds text rest) (hnames : NamesIn text.reverse names) :
    NamesIn rest.reverse names := by
  obtain ⟨front, rfl, hfront⟩ := h
  rw [List.reverse_append] at hnames
  exact hnames.take (by simpa using hfront)

/-- Plain characters stand outside quotes. -/
theorem sheds_of_follows (h : Follows text rest) : Sheds text rest := by
  obtain ⟨front, hsplit, hplain⟩ := h
  exact ⟨front, hsplit, fun c hc => isBare_of_isPlain (hplain c hc)⟩

theorem sheds_char? {x : Char} (hx : isBare x = true) (h : char? x text = some rest) :
    Sheds text rest :=
  ⟨[x], char?_eq_some h, by simpa using hx⟩

theorem sheds_trimStart (text : List Char) : Sheds text (trimStart text) :=
  sheds_of_follows (follows_trimStart text)

theorem sheds_blanks? (h : blanks? text = some rest) : Sheds text rest :=
  sheds_of_follows (follows_blanks? h)

theorem sheds_word (text : List Char) : Sheds text (word text).2 :=
  sheds_of_follows (follows_word text)

theorem sheds_keywordChars? {key : List Char} (hkey : ∀ c ∈ key, isPlain c = true)
    (h : keywordChars? key text = some rest) : Sheds text rest :=
  sheds_of_follows (follows_keywordChars? hkey h)

theorem NamesIn.beforeKeyword? {word : String} {front : List Char} (h : NamesIn text names)
    (hword : ∀ c ∈ word.toList, isPlain c = true) (hfront : beforeKeyword? word text = some front) :
    NamesIn front names := by
  simp only [Idiom.beforeKeyword?, Option.bind_eq_bind, Option.bind_eq_some_iff, Option.pure_def,
    Option.some.injEq] at hfront
  obtain ⟨middle, hkeyword, cs, hblanks, rfl⟩ := hfront
  have hsheds := (sheds_keywordChars? (by simpa using hword) hkeyword).trans (sheds_blanks? hblanks)
  exact hsheds.namesIn_reverse (by simpa using h)

/-- The text between the parentheses of a call has the names of the call. -/
theorem NamesIn.callParts {name inner : List Char} (h : NamesIn text names)
    (hcall : callParts text = some (name, inner)) : NamesIn inner names := by
  have htrim := h.trim
  simp only [Sql.callParts] at hcall
  split at hcall
  · split at hcall
    · rename_i cs hcs
      split at hcall
      · rename_i hclose
        obtain ⟨-, rfl⟩ := Prod.mk.inj (Option.some.inj hcall)
        have hname : Sheds (Text.trim text) ((Text.trim text).dropWhile isNameChar) :=
          ⟨_, List.takeWhile_append_dropWhile.symm, fun c hc =>
            isBare_of_isWordChar (isWordChar_of_isNameChar (List.mem_takeWhile_imp hc))⟩
        have hopen := (hname.trans (sheds_trimStart _)).namesIn htrim
        rw [hcs] at hopen
        have hinner := hopen.tail (by decide)
        rw [closeCallFrom_split hclose] at hinner
        exact hinner.init (by decide)
      · contradiction
    · contradiction
  · contradiction

/-! ### Texts that open no name -/

theorem opensName_of_toLower {c : Char} (h : opensName c.toLower = false) :
    opensName c = false := by
  cases hc : opensName c with
  | false => rfl
  | true =>
    have hmarks : ∀ x ∈ ['[', '"', '`'], x.toLower = x := by decide
    have hmem : c ∈ ['[', '"', '`'] := by simpa [opensName, or_assoc] using hc
    rw [hmarks c hmem, hc] at h
    contradiction

theorem opensName_of_lowerAscii (h : ∀ c ∈ lowerAscii text, opensName c = false) :
    ∀ c ∈ text, opensName c = false :=
  fun _ hc => opensName_of_toLower (h _ (List.mem_map_of_mem hc))

theorem opensName_of_sameAscii {key : List Char} (h : sameAscii text key = true)
    (hkey : ∀ c ∈ key.map Char.toLower, opensName c = false) : ∀ c ∈ text, opensName c = false := by
  rw [sameAscii, beq_iff_eq] at h
  rw [← h] at hkey
  exact opensName_of_lowerAscii hkey

/-- A part or a unit is spelled without what opens a name. -/
theorem opensName_of_unitKey {α : Type} {table : List (String × α)} {value : α}
    (hall : ∀ entry ∈ table, ∀ c ∈ entry.1.toList, opensName c = false)
    (h : table.lookup (unitKey text) = some value) : ∀ c ∈ text, opensName c = false := by
  obtain ⟨front, back, hsplit, -⟩ := List.lookup_eq_some_iff.1 h
  have hkey := hall (unitKey text, value) (by rw [hsplit]; simp)
  rw [unitKey, String.toList_ofList] at hkey
  intro c hc
  cases hopens : opensName c with
  | false => rfl
  | true =>
    have hmarks : ∀ x ∈ ['[', '"', '`'], isBlank x = false ∧ (x == '\'') = false := by decide
    obtain ⟨hblank, hquote⟩ := hmarks c (by simpa [opensName, or_assoc] using hopens)
    have hmem := @mem_dropWhile_of_mem _ (· == '\'') c (mem_trim_of_mem hc hblank) hquote
    have hback := @mem_dropWhile_of_mem _ (· == '\'') c (List.mem_reverse.2 hmem) hquote
    rw [← hopens]
    exact opensName_of_lowerAscii hkey c (List.mem_reverse.2 hback)

theorem opensName_of_part {part : DatePart} (h : DatePart.ofText? text = some part) :
    ∀ c ∈ text, opensName c = false :=
  opensName_of_unitKey (by decide) h

theorem opensName_of_unit {unit : TimeUnit} (h : TimeUnit.ofText? text = some unit) :
    ∀ c ∈ text, opensName c = false :=
  opensName_of_unitKey (by decide) h

/-! ### Intervals -/

/-- Plain text with one literal has no quoted name. -/
theorem namesIn_of_hasOneLiteral (h : HasOneLiteral text) : NamesIn text [] := by
  obtain ⟨before, content, after, rfl, hbefore, hafter, hcontent⟩ := h
  have hplain : ∀ {cs : List Char}, (∀ c ∈ cs, isPlain c = true) → NamesIn cs [] :=
    fun h => .of_bare fun c hc => isBare_of_isPlain (h c hc)
  have hcontent : NamesIn content [] := by
    rcases hcontent with rfl | ⟨inner, rfl, hinner⟩
    · exact .nil
    have hquote : '\'' ∉ inner := fun hmem => absurd (hinner _ hmem) (by decide)
    simpa using NamesIn.nil.literal hquote
  exact (hplain hbefore).append (hcontent.append (hplain hafter))

/-- An interval has no quoted name. -/
theorem namesIn_of_scanInterval? {found : ScannedInterval} (h : scanInterval? text = some found) :
    ∃ front, text = front ++ found.rest ∧ NamesIn front [] := by
  obtain ⟨keyword, body, rfl, hkeyword, hbody⟩ := exists_of_scanInterval? h
  have hplain : ∀ c ∈ "interval".toList, isPlain c = true := by decide
  have hword : ∀ c ∈ keyword, isBare c = true := fun c hc =>
    isBare_of_isPlain (isPlain_of_fold (hplain _ (hkeyword ▸ List.mem_map_of_mem hc)))
  exact ⟨keyword ++ body, by simp, (NamesIn.of_bare hword).append (namesIn_of_hasOneLiteral hbody)⟩

theorem eq_nil_of_interval? {value : Int × TimeUnit} (h : interval? text = some value)
    (hnames : NamesIn text names) : names = [] := by
  simp only [interval?, Option.bind_eq_bind, Option.bind_eq_some_iff] at h
  obtain ⟨found, hfound, h⟩ := h
  split at h
  · rename_i hrest
    obtain ⟨front, hsplit, hfront⟩ := namesIn_of_scanInterval? hfound
    rw [List.isEmpty_iff.1 hrest, List.append_nil] at hsplit
    exact hnames.trim.unique (hsplit ▸ hfront)
  · contradiction

theorem eq_nil_of_modifier? {value : Int × TimeUnit} (h : modifier? text = some value)
    (hnames : NamesIn text names) : names = [] := by
  simp only [modifier?, Option.bind_eq_bind, Option.bind_eq_some_iff] at h
  obtain ⟨found, hfound, h⟩ := h
  split at h
  · rename_i hrest
    obtain ⟨front, hsplit, hfront⟩ := hasOneLiteral_quotedBoth? hfound
    rw [List.isEmpty_iff.1 hrest, List.append_nil] at hsplit
    exact hnames.unique (hsplit ▸ namesIn_of_hasOneLiteral hfront)
  · contradiction

/-! ### Recognition -/

theorem eq_nil_of_isNowLiteral (h : isNowLiteral text = true) (hnames : NamesIn text names) :
    names = [] :=
  hnames.trim.eq_nil (opensName_of_sameAscii h (by decide))

theorem eq_nil_of_blank (h : blank text = true) (hnames : NamesIn text names) : names = [] :=
  hnames.unique (.of_bare (bare_of_blank h))

/-- The current moment has no quoted name. -/
theorem eq_nil_of_isNowClock (h : isNowClock text = true) (hnames : NamesIn text names) :
    names = [] := by
  rw [isNowClock, Bool.or_eq_true] at h
  rcases h with hword | hcall
  · exact hnames.eq_nil (opensName_of_sameAscii hword (by decide))
  · split at hcall
    · rename_i name inner hparts
      have hinner := hnames.callParts hparts
      split at hcall
      · exact eq_nil_of_blank hcall hinner
      · exact eq_nil_of_isNowLiteral hcall hinner
      · cases hcall
    · cases hcall

theorem NamesIn.castToDate? {operand : List Char} (h : NamesIn text names)
    (hcast : castToDate? text = some operand) : NamesIn operand names := by
  simp only [Idiom.castToDate?, Option.bind_eq_bind, Option.bind_eq_some_iff] at hcast
  obtain ⟨front, hdate, operand', has, hoperand⟩ := hcast
  split at hoperand
  · contradiction
  · obtain rfl := Option.some.inj hoperand
    exact (h.beforeKeyword? (by decide) hdate).beforeKeyword? (by decide) has

theorem NamesIn.partFrom? {part : DatePart} {arg : List Char} (h : NamesIn text names)
    (hpart : partFrom? text = some (part, arg)) : NamesIn arg names := by
  simp only [Idiom.partFrom?, Option.bind_eq_bind, Option.bind_eq_some_iff] at hpart
  obtain ⟨part', -, hpart⟩ := hpart
  split at hpart
  · simp only [Option.bind_eq_some_iff] at hpart
    obtain ⟨afterGap, hgap, afterFrom, hfrom, operand, hblanks, hoperand⟩ := hpart
    split at hoperand
    · contradiction
    · obtain ⟨-, rfl⟩ := Prod.mk.inj (Option.some.inj hoperand)
      have hsheds := (((sheds_word text).trans (sheds_blanks? hgap)).trans
        (sheds_keywordChars? (by decide) hfrom)).trans (sheds_blanks? hblanks)
      exact (hsheds.namesIn h).trim
  · contradiction

theorem NamesIn.weekdayOffset? {arg : List Char} (h : NamesIn text names)
    (hoffset : weekdayOffset? text = some arg) : NamesIn arg names := by
  simp only [Idiom.weekdayOffset?, Option.bind_eq_bind, Option.bind_eq_some_iff, Option.pure_def,
    Option.some.injEq] at hoffset
  obtain ⟨f1, h1, f2, h2, f3, h3, f4, h4, f5, h5, f6, h6, f7, h7, b1, g1, b2, g2, b3, g3, b4, g4,
    b5, g5, b6, g6, b7, g7, b8, g8, b9, g9, rfl⟩ := hoffset
  have step : ∀ {x : Char} {text rest : List Char}, isBare x = true →
      char? x (trimStart text) = some rest → Sheds text rest :=
    fun hx h => (sheds_trimStart _).trans (sheds_char? hx h)
  have key : ∀ {word text rest : List Char}, (∀ c ∈ word, isPlain c = true) →
      keywordChars? word (trimStart text) = some rest → Sheds text rest :=
    fun hword h => (sheds_trimStart _).trans (sheds_keywordChars? hword h)
  have hfront := (((((((sheds_char? (by decide) h1).trans (step (by decide) h2)).trans
    (step (by decide) h3)).trans (key (by decide) h4)).trans (step (by decide) h5)).trans
    (key (by decide) h6)).trans (step (by decide) h7)).namesIn h
  rw [← List.reverse_reverse f7] at hfront
  have hback := (((((((((sheds_char? (by decide) g1).trans (step (by decide) g2)).trans
    (step (by decide) g3)).trans (step (by decide) g4)).trans (step (by decide) g5)).trans
    (step (by decide) g6)).trans (key (by decide) g7)).trans (step (by decide) g8)).trans
    (step (by decide) g9)).namesIn_reverse hfront
  exact hback.trim

variable {base arg : List Char} {unitNames amountNames baseNames : List QuotedName}

/-- The two dates in a shift by days back to a Monday are one. -/
theorem carries_alignedWeek? {unit offset : List Char} (hunit : NamesIn unit unitNames)
    (hoffset : NamesIn offset amountNames) (hbase : NamesIn base baseNames)
    (h : alignedWeek? unit offset base = some arg) :
    Carries (unitNames ++ (amountNames ++ baseNames)) arg := by
  simp only [alignedWeek?, Option.bind_eq_bind, Option.bind_eq_some_iff] at h
  obtain ⟨part, hpart, h⟩ := h
  obtain rfl := hunit.eq_nil (opensName_of_unit hpart)
  split at h
  · simp at h
  · simp only [Option.bind_eq_some_iff, Option.bind_none] at h
    obtain ⟨weekday, hweekday, ⟨name, body⟩, hparts, h⟩ := h
    split at h
    · cases h
    · obtain ⟨operand, hcast, h⟩ := Option.bind_eq_some_iff.1 h
      split at h
      · rename_i hsame
        obtain rfl := Option.some.inj h
        have harg := ((hbase.callParts hparts).trim.castToDate? hcast).trim
        obtain rfl := (hoffset.trim.weekdayOffset? hweekday).unique (hsame ▸ harg)
        exact harg.carries.mono (by simp)
      · cases h

/-- The two dates in a shift by an interval back to a Monday are one. -/
theorem carries_weekdayInterval? {interval : List Char} (hbase : NamesIn base baseNames)
    (hinterval : NamesIn interval amountNames) (h : weekdayInterval? base interval = some arg) :
    Carries (baseNames ++ amountNames) arg := by
  simp only [weekdayInterval?, Option.bind_eq_bind, Option.bind_eq_some_iff, Option.bind_none] at h
  obtain ⟨⟨name, operand⟩, hparts, h⟩ := h
  split at h
  · cases h
  · simp only [Option.bind_eq_some_iff] at h
    obtain ⟨afterWord, hkeyword, cs, hblanks, front, hday, ⟨weekday, inner⟩, hcall, h⟩ := h
    split at h
    · rename_i hsame
      obtain rfl := Option.some.inj h
      have harg := (hbase.callParts hparts).trim
      have hsheds := (sheds_keywordChars? (by decide) hkeyword).trans (sheds_blanks? hblanks)
      have hinner := (((hsheds.namesIn hinterval.trim).beforeKeyword? (by decide) hday).callParts
        hcall).trim
      obtain rfl := hinner.unique (hsame.2 ▸ harg)
      exact harg.carries.mono (by simp)
    · cases h

/-- The expression inside an idiom, which a clock has none of. -/
def operand : Idiom → List Char
  | .extract _ arg => arg
  | .clock _ => []
  | .shift _ _ base _ => base
  | .truncate _ arg => arg

theorem carries_flooredDate? {unit amount : List Char} {idiom : Idiom}
    (hunit : NamesIn unit unitNames) (hamount : NamesIn amount amountNames)
    (hbase : NamesIn base baseNames) (h : flooredDate? unit amount base = some idiom) :
    Carries (unitNames ++ (amountNames ++ baseNames)) (operand idiom) := by
  simp only [flooredDate?, Option.bind_eq_bind, Option.bind_eq_some_iff, Option.bind_none] at h
  obtain ⟨part, hpart, h⟩ := h
  obtain rfl := hunit.eq_nil (opensName_of_part hpart)
  split at h
  · cases h
  · rename_i hzero
    obtain rfl := hbase.trim.eq_nil (by rw [not_not.1 hzero]; decide)
    obtain ⟨⟨name, inner⟩, hparts, h⟩ := Option.bind_eq_some_iff.1 h
    split at h
    · cases h
    · split at h
      · rename_i unit' zero arg hsplit
        split at h
        · rename_i hsame
          obtain rfl := Option.some.inj h
          obtain ⟨parts, hargs, rfl⟩ := (hamount.callParts hparts).splitArgs
          rw [hsplit] at hargs
          obtain _ | ⟨hunit', _ | ⟨hzero', _ | ⟨harg, _ | _⟩⟩⟩ := hargs
          obtain rfl := hunit'.eq_nil (opensName_of_part hsame.2)
          obtain rfl := hzero'.eq_nil (by rw [hsame.1]; decide)
          exact harg.carries.mono (by simp)
        · cases h
      · cases h

/-- A date function of SQLite keeps the names of its first argument. -/
theorem carries_dateCall? {clock : Clock} {args : List (List Char)} {parts : List (List QuotedName)}
    {idiom : Idiom} (hargs : List.Forall₂ NamesIn args parts)
    (h : dateCall? clock args = some idiom) : Carries parts.flatten (operand idiom) := by
  unfold dateCall? at h
  split at h
  · rename_i arg
    obtain _ | ⟨harg, _ | _⟩ := hargs
    split at h
    · rename_i hnow
      obtain rfl := Option.some.inj h
      obtain rfl := eq_nil_of_isNowLiteral hnow harg
      exact NamesIn.nil.carries
    · split at h
      · obtain rfl := Option.some.inj h
        exact harg.carries.mono (by simp)
      · contradiction
  · rename_i base modifier
    obtain _ | ⟨hbase, _ | ⟨hmodifier, _ | _⟩⟩ := hargs
    have hstart : ∀ {key : String}, (∀ c ∈ key.toList, opensName c = false) →
        String.ofList (lowerAscii modifier) = key →
        ∀ c ∈ modifier, opensName c = false := by
      rintro key hkey rfl
      exact opensName_of_lowerAscii (by simpa using hkey)
    dsimp only at h
    split at h
    · rename_i hkey
      obtain rfl := Option.some.inj h
      obtain rfl := hmodifier.eq_nil (hstart (by decide) hkey)
      exact hbase.carries.mono (by simp)
    · split at h
      · rename_i hkey
        obtain rfl := Option.some.inj h
        obtain rfl := hmodifier.eq_nil (hstart (by decide) hkey)
        exact hbase.carries.mono (by simp)
      · split at h
        · rename_i hkey
          obtain rfl := Option.some.inj h
          obtain rfl := hmodifier.eq_nil (hstart (by decide) hkey)
          exact hbase.carries.mono (by simp)
        · split at h
          · contradiction
          · rename_i hvalue
            obtain rfl := Option.some.inj h
            obtain rfl := eq_nil_of_modifier? hvalue hmodifier
            rw [operand]
            split
            · rename_i hnow
              obtain rfl := eq_nil_of_isNowLiteral hnow hbase
              cases clock <;> exact carries_of_bare (by decide)
            · exact hbase.carries.mono (by simp)
  · rename_i arg weekday back
    obtain _ | ⟨harg, _ | ⟨hweekday, _ | ⟨hback, _ | _⟩⟩⟩ := hargs
    split at h
    · rename_i hsame
      obtain rfl := Option.some.inj h
      obtain rfl := hweekday.eq_nil (opensName_of_sameAscii hsame.2.1 (by decide))
      obtain rfl := hback.eq_nil (opensName_of_sameAscii hsame.2.2 (by decide))
      exact harg.carries.mono (by simp)
    · contradiction
  · contradiction

theorem opensName_of_lookup {α : Type} {table : List (String × α)} {value : α}
    (hall : ∀ entry ∈ table, ∀ c ∈ entry.1.toList, opensName c = false)
    (h : table.lookup (String.ofList text) = some value) : ∀ c ∈ text, opensName c = false := by
  obtain ⟨front, back, hsplit, -⟩ := List.lookup_eq_some_iff.1 h
  have hkey := hall (String.ofList text, value) (by rw [hsplit]; simp)
  rwa [String.toList_ofList] at hkey

theorem opensName_of_int64? {n : Int} (h : int64? (text.filter (· ≠ ' ')) = some n) :
    ∀ c ∈ text, opensName c = false := by
  intro c hc
  cases hopens : opensName c with
  | false => rfl
  | true =>
    have hblank : c ≠ ' ' := by
      rintro rfl
      exact absurd hopens (by decide)
    have hmem : c ∈ text.filter (· ≠ ' ') := List.mem_filter.2 ⟨hc, by simpa using hblank⟩
    rcases (isNumber_of_int64? h).chars c hmem with rfl | rfl | hdigit
    · exact absurd hopens (by decide)
    · exact absurd hopens (by decide)
    · have hmarks : ∀ x ∈ ['[', '"', '`'], x.isDigit = false := by decide
      rw [hmarks c (by simpa [opensName, or_assoc] using hopens)] at hdigit
      contradiction

/-- The expression inside the idiom that a call spells has the quoted names of all its arguments. -/
theorem carries_recogniseWith {clockOf : List Char → TimeUnit → Clock} {function : DateFunction}
    {args : List (List Char)} {parts : List (List QuotedName)} {idiom : Idiom}
    (hargs : List.Forall₂ NamesIn args parts)
    (h : recogniseWith clockOf function args = some idiom) :
    Carries parts.flatten (operand idiom) := by
  unfold recogniseWith at h
  split at h
  · -- a part called by its name
    obtain _ | ⟨harg, _ | _⟩ := hargs
    split at h
    · contradiction
    · obtain rfl := Option.some.inj h
      exact harg.carries.mono (by simp)
  · -- strftime
    obtain _ | ⟨hformat, _ | ⟨harg, _ | _⟩⟩ := hargs
    obtain ⟨part, hpart, rfl⟩ := Option.map_eq_some_iff.1 h
    obtain rfl := hformat.eq_nil (opensName_of_lookup (by decide) hpart)
    exact harg.carries.mono (by simp)
  · -- EXTRACT
    obtain _ | ⟨hbody, _ | _⟩ := hargs
    obtain ⟨⟨part, arg⟩, hpart, rfl⟩ := Option.map_eq_some_iff.1 h
    exact (hbody.partFrom? hpart).carries.mono (by simp)
  · -- DATEPART
    obtain _ | ⟨hunit, _ | ⟨harg, _ | _⟩⟩ := hargs
    obtain ⟨part, hpart, rfl⟩ := Option.map_eq_some_iff.1 h
    obtain rfl := hunit.eq_nil (opensName_of_part hpart)
    exact harg.carries.mono (by simp)
  · obtain _ | _ := hargs
    obtain rfl := Option.some.inj h
    exact NamesIn.nil.carries
  · obtain _ | _ := hargs
    obtain rfl := Option.some.inj h
    exact NamesIn.nil.carries
  · -- the current moment cast to a date
    obtain _ | ⟨hbody, _ | _⟩ := hargs
    split at h
    · rename_i operand hcast
      split at h
      · rename_i hnow
        obtain rfl := Option.some.inj h
        obtain rfl := eq_nil_of_isNowClock hnow (hbody.castToDate? hcast).trim
        exact NamesIn.nil.carries
      · contradiction
    · contradiction
  · exact carries_dateCall? hargs h
  · exact carries_dateCall? hargs h
  · -- DATEADD
    rename_i unit amount base
    obtain _ | ⟨hunit, _ | ⟨hamount, _ | ⟨hbase, _ | _⟩⟩⟩ := hargs
    split at h
    · rename_i n hvalue
      obtain ⟨unit', hunit', rfl⟩ := Option.map_eq_some_iff.1 h
      obtain rfl := hunit.eq_nil (opensName_of_unit hunit')
      obtain rfl := hamount.eq_nil (opensName_of_int64? hvalue)
      exact hbase.carries.mono (by simp)
    · split at h
      · rename_i arg haligned
        obtain rfl := Option.some.inj h
        exact (carries_alignedWeek? hunit hamount hbase haligned).mono (by simp)
      · exact (carries_flooredDate? hunit hamount hbase h).mono (by simp)
  · -- DATE_ADD
    obtain _ | ⟨hbase, _ | ⟨hinterval, _ | _⟩⟩ := hargs
    obtain ⟨⟨amount, unit⟩, hvalue, rfl⟩ := Option.map_eq_some_iff.1 h
    obtain rfl := eq_nil_of_interval? hvalue hinterval
    exact hbase.carries.mono (by simp)
  · -- DATE_SUB
    obtain _ | ⟨hbase, _ | ⟨hinterval, _ | _⟩⟩ := hargs
    split at h
    · rename_i arg hweek
      obtain rfl := Option.some.inj h
      exact (carries_weekdayInterval? hbase hinterval hweek).mono (by simp)
    · split at h
      · rename_i amount unit hvalue
        obtain ⟨n, -, rfl⟩ := Option.map_eq_some_iff.1 h
        obtain rfl := eq_nil_of_interval? hvalue hinterval
        exact hbase.carries.mono (by simp)
      · contradiction
  · -- DATE_TRUNC
    obtain _ | ⟨hunit, _ | ⟨harg, _ | _⟩⟩ := hargs
    obtain ⟨part, hpart, rfl⟩ := Option.map_eq_some_iff.1 h
    obtain rfl := hunit.eq_nil (opensName_of_part hpart)
    exact harg.carries.mono (by simp)
  · -- DATE_FORMAT
    obtain _ | ⟨harg, _ | ⟨hformat, _ | _⟩⟩ := hargs
    obtain ⟨part, hpart, rfl⟩ := Option.map_eq_some_iff.1 h
    obtain rfl := hformat.eq_nil (opensName_of_lookup (by decide) hpart)
    exact harg.carries.mono (by simp)
  · contradiction

end Sql

end AskSql
