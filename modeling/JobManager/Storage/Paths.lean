import JobManager.Library.Decimal
import JobManager.Library.Utf8

/-!
# Object keys of job states

Every iteration of a job is one object, whose key carries the job code as a directory
and the inverted iteration number as twenty digits, so that the newest iteration comes
first in an ascending listing.  The key is read back from its last path segment alone.

Main results:

- Theorem {lit}`parseIterNum_buildJobIterationPath`: a key gives its iteration number
  back.
- Theorem {lit}`buildJobIterationPath_lt_iff`: a later iteration sorts first.
- Theorem {lit}`buildJobIterationPath_reverses`: keys are read back to their numbers, later
  iterations have the smaller keys byte by byte, and the first key of an ascending listing
  is that of the newest iteration.
- Theorem {lit}`under_buildJobPrefix`: a key lies under the directory of a job exactly
  when it is one of that job, or of a job whose code extends that job's code by a slash.
-/

namespace JobManager

/-- Errors of the storage layer. -/
inductive StorageError where
  | notFound (message : String)
  | concurrentModification (message : String)
  | serialization (message : String)
  | backend (message : String)
  | timeout
  | cancelled
  | rateLimited
  | serviceUnavailable
  | auth (message : String)
  | attemptsSpent (last : StorageError)
  | other (message : String)
deriving DecidableEq

/-- Largest iteration number a key can carry. -/
def u64Max : Nat := 2 ^ 64 - 1

/-! ## Texts -/

/-- Drop every occurrence of a pattern a text begins with. -/
def trimStartMatches (pattern text : List Char) : List Char :=
  go text.length text
where
  go : Nat → List Char → List Char
    | 0, text => text
    | fuel + 1, text =>
        if pattern <+: text then go fuel (text.drop pattern.length) else text

/-- Drop every occurrence of a pattern a text ends with. -/
def trimEndMatches (pattern text : List Char) : List Char :=
  (trimStartMatches pattern.reverse text.reverse).reverse

/-- Why a text is not a number of 64 bits. -/
inductive ParseIntError where
  | empty
  | invalidDigit
  | posOverflow
deriving DecidableEq

def ParseIntError.toText : ParseIntError → String
  | .empty => "cannot parse integer from empty string"
  | .invalidDigit => "invalid digit found in string"
  | .posOverflow => "number too large to fit in target type"

/-- Read decimal digits after those that make up {lit}`acc`. -/
def parseDigits : List Char → Nat → Except ParseIntError Nat
  | [], acc => .ok acc
  | c :: cs, acc =>
      if c.isDigit then
        if 10 * acc + (c.toNat - 48) ≤ u64Max then parseDigits cs (10 * acc + (c.toNat - 48))
        else .error .posOverflow
      else .error .invalidDigit

/-- Read a number of 64 bits; one plus sign may stand before the digits. -/
def parseU64 : List Char → Except ParseIntError Nat
  | [] => .error .empty
  | ['+'] => .error .invalidDigit
  | '+' :: digits => parseDigits digits 0
  | digits => parseDigits digits 0

/-! ## Keys -/

/-- Serialization format job states are kept in. -/
inductive JobStateCodecKind where
  | json
  | cbor
deriving DecidableEq

def JobStateCodecKind.fileExtension : JobStateCodecKind → String
  | .json => ".json"
  | .cbor => ".cbor"

def jobStateFilePrefix : String := "state-"

/-- Object keys of one backend: where its state objects live and the codec that writes
them. -/
structure JobPaths where
  pathPrefix : String
  codec : JobStateCodecKind
deriving DecidableEq

namespace JobPaths

/-- What every state object of a job begins with. -/
def buildJobPrefix (paths : JobPaths) (jobCode : String) : String :=
  paths.pathPrefix ++ "/" ++ jobCode ++ "/"

def buildJobIterationPath (paths : JobPaths) (jobCode : String) (iterNum : Nat) : String :=
  paths.buildJobPrefix jobCode ++ jobStateFilePrefix ++
    String.ofList (Decimal.padded 20 (u64Max - iterNum)) ++ paths.codec.fileExtension

/-- Iteration number a key carries, unless it is not a state object of this codec. -/
def parseIterNum (paths : JobPaths) (filePath : String) : Except StorageError Nat :=
  let parts := filePath.toList.splitOn '/'
  if parts.length < 2 then
    .error (.other s!"Cannot split file path {filePath}")
  else
    let filename := parts.getLastD []
    let fileExtension := paths.codec.fileExtension.toList
    if ¬(jobStateFilePrefix.toList <+: filename ∧ fileExtension <:+ filename) then
      .error (.other s!"Invalid filename format {String.ofList filename}")
    else
      match parseU64 (trimEndMatches fileExtension
        (trimStartMatches jobStateFilePrefix.toList filename)) with
      | .error e => .error (.other s!"Failed to parse iter_num: {e.toText}")
      | .ok invIterNum => .ok (u64Max - invIterNum)

end JobPaths

/-! ## What trimming and reading do -/

/-- A pattern that a text begins with once is dropped once. -/
theorem trimStartMatches_append {pattern rest : List Char} (hpattern : pattern ≠ [])
    (hrest : ¬pattern <+: rest) : trimStartMatches pattern (pattern ++ rest) = rest := by
  have hlen : (pattern ++ rest).length = pattern.length - 1 + rest.length + 1 := by
    have := List.length_pos_of_ne_nil hpattern
    rw [List.length_append]
    omega
  rw [trimStartMatches, hlen, trimStartMatches.go, if_pos (List.prefix_append _ _),
    List.drop_left]
  cases pattern.length - 1 + rest.length with
  | zero => rfl
  | succ fuel => rw [trimStartMatches.go, if_neg hrest]

/-- A suffix that is there once is trimmed. -/
theorem trimEndMatches_append {pattern text : List Char} (hpattern : pattern ≠ [])
    (htext : ¬pattern <:+ text) : trimEndMatches pattern (text ++ pattern) = text := by
  rw [trimEndMatches, List.reverse_append, trimStartMatches_append]
  · exact List.reverse_reverse text
  · simpa using hpattern
  · rwa [List.reverse_prefix]

/-- Digits only add to what was read. -/
theorem le_ofDigitChars (l : List Char) (acc : Nat) : acc ≤ Nat.ofDigitChars 10 l acc := by
  induction l generalizing acc with
  | nil => simp
  | cons c l ih =>
      rw [Nat.ofDigitChars_cons]
      have := ih (10 * acc + (c.toNat - '0'.toNat))
      omega

/-- Digits that fit are read as their number. -/
theorem parseDigits_of_digits {l : List Char} {acc : Nat} (hdigits : Decimal.Digits l)
    (hfits : Nat.ofDigitChars 10 l acc ≤ u64Max) :
    parseDigits l acc = .ok (Nat.ofDigitChars 10 l acc) := by
  induction l generalizing acc with
  | nil => simp [parseDigits]
  | cons c l ih =>
      rw [Nat.ofDigitChars_cons] at hfits ⊢
      simp only [Char.reduceToNat] at hfits ⊢
      have hle := Nat.le_trans (le_ofDigitChars l _) hfits
      rw [parseDigits, if_pos (hdigits c List.mem_cons_self), if_pos hle,
        ih (fun x hx => hdigits x (List.mem_cons_of_mem _ hx)) hfits]

/-- A text of digits that fits into 64 bits is read as the number it stands for. -/
theorem parseU64_of_digits {l : List Char} (hne : l ≠ []) (hdigits : Decimal.Digits l)
    (hfits : Nat.ofDigitChars 10 l 0 ≤ u64Max) : parseU64 l = .ok (Nat.ofDigitChars 10 l 0) := by
  rw [← parseDigits_of_digits hdigits hfits]
  have hplus : '+' ∉ l := fun hmem => absurd (hdigits '+' hmem) (by decide)
  match l, hne, hplus with
  | c :: cs, _, hplus =>
      have hc : c ≠ '+' := fun heq => hplus (heq ▸ List.mem_cons_self)
      rw [parseU64]
      · simp
      · simp [hc]
      · simp [hc]

/-! ## What keys look like -/

namespace JobPaths

variable (paths : JobPaths) (code : String) (n : Nat)

/-- Last path segment of the key of an iteration. -/
def fileName : List Char :=
  jobStateFilePrefix.toList ++ Decimal.padded 20 (u64Max - n) ++ paths.codec.fileExtension.toList

/-- Everything before the last path segment of a key. -/
def directory : List Char := paths.pathPrefix.toList ++ '/' :: code.toList

/-- The prefix of a job is its directory. -/
theorem toList_buildJobPrefix :
    (paths.buildJobPrefix code).toList = paths.directory code ++ ['/'] := by
  simp [buildJobPrefix, directory]

/-- The key of an iteration is a file of it. -/
theorem toList_buildJobIterationPath :
    (paths.buildJobIterationPath code n).toList =
      paths.directory code ++ '/' :: paths.fileName n := by
  simp [buildJobIterationPath, buildJobPrefix, directory, fileName]

theorem inverted_lt : u64Max - n < 10 ^ 20 := by
  have : u64Max < 10 ^ 20 := by decide
  omega

/-- Its number is written in twenty digits. -/
theorem length_number : (Decimal.padded 20 (u64Max - n)).length = 20 :=
  Decimal.length_padded (by decide) (inverted_lt n)

/-- No file name holds a slash. -/
theorem slash_notMem_fileName : '/' ∉ paths.fileName n := by
  simp only [fileName, List.mem_append, not_or]
  refine ⟨⟨by decide, ?_⟩, ?_⟩
  · intro hmem
    exact absurd (Decimal.digits_padded _ _ _ hmem) (by decide)
  · cases hcodec : paths.codec <;> decide

/-! ## Reading a key back -/

/-- Trimmed, it is the inverted number. -/
theorem trimmed_fileName :
    trimEndMatches paths.codec.fileExtension.toList
      (trimStartMatches jobStateFilePrefix.toList (paths.fileName n)) =
        Decimal.padded 20 (u64Max - n) := by
  have hdigits := Decimal.digits_padded 20 (u64Max - n)
  have hlen := length_number n
  rw [fileName, List.append_assoc, trimStartMatches_append, trimEndMatches_append]
  · cases hcodec : paths.codec <;> decide
  · -- A number ends in no extension, which has a dot in it.
    intro hsuffix
    have hdot : '.' ∈ paths.codec.fileExtension.toList := by
      cases hcodec : paths.codec <;> decide
    exact absurd (hdigits _ (hsuffix.mem hdot)) (by decide)
  · decide
  · -- Nor does it begin with a letter.
    intro hstart
    obtain ⟨d, ds, hnumber⟩ := List.exists_cons_of_length_eq_add_one hlen
    rw [hnumber] at hstart hdigits
    have hhead : 's' = d := by
      have := List.cons_prefix_cons.mp hstart
      exact this.1
    exact absurd (hdigits 's' (hhead ▸ List.mem_cons_self)) (by decide)

/-- The last part of a key is its file name. -/
theorem parts_buildJobIterationPath :
    (paths.buildJobIterationPath code n).toList.splitOn '/' =
      (paths.directory code).splitOn '/' ++ [paths.fileName n] := by
  rw [toList_buildJobIterationPath, List.splitOn_append_cons_self,
    List.splitOn_eq_singleton (paths.slash_notMem_fileName n)]

theorem two_le_length_parts :
    ¬((paths.directory code).splitOn '/' ++ [paths.fileName n]).length < 2 := by
  have := List.length_pos_of_ne_nil (List.splitOn_ne_nil '/' (paths.directory code))
  rw [List.length_append, List.length_singleton]
  omega

/-- The key of an iteration gives its number back. -/
theorem parseIterNum_buildJobIterationPath {n : Nat} (hn : n ≤ u64Max) :
    paths.parseIterNum (paths.buildJobIterationPath code n) = .ok n := by
  have hformat : jobStateFilePrefix.toList <+: paths.fileName n ∧
      paths.codec.fileExtension.toList <:+ paths.fileName n := by
    constructor
    · rw [fileName, List.append_assoc]
      exact List.prefix_append _ _
    · exact List.suffix_append _ _
  have hnumber : Decimal.padded 20 (u64Max - n) ≠ [] := by
    intro hnil
    have := length_number n
    rw [hnil] at this
    cases this
  have hfits : Nat.ofDigitChars 10 (Decimal.padded 20 (u64Max - n)) 0 ≤ u64Max := by
    rw [Decimal.ofDigitChars_padded]
    omega
  simp only [parseIterNum, parts_buildJobIterationPath, if_neg (two_le_length_parts paths code n),
    List.getLastD_concat, hformat, not_true_eq_false, ↓reduceIte, and_self]
  rw [trimmed_fileName, parseU64_of_digits hnumber (Decimal.digits_padded _ _) hfits,
    Decimal.ofDigitChars_padded]
  simp only [Except.ok.injEq]
  omega

/-- Extensions of two codecs are of one length, so that neither ends in the other. -/
theorem codec_eq_of_suffix {codec codec' : JobStateCodecKind} {l : List Char}
    (h : codec.fileExtension.toList <:+ l) (h' : codec'.fileExtension.toList <:+ l) :
    codec = codec' := by
  cases codec <;> cases codec'
  · rfl
  · exact absurd (List.suffix_of_suffix_length_le h h' (by decide)) (by decide)
  · exact absurd (List.suffix_of_suffix_length_le h h' (by decide)) (by decide)
  · rfl

/-- A key another codec wrote is not read as an iteration of this one. -/
theorem parseIterNum_foreign {codec : JobStateCodecKind} (hcodec : codec ≠ paths.codec) :
    ∃ message, paths.parseIterNum
      (buildJobIterationPath { paths with codec := codec } code n) = .error (.other message) := by
  let foreign : JobPaths := { paths with codec := codec }
  have hformat : ¬(jobStateFilePrefix.toList <+: foreign.fileName n ∧
      paths.codec.fileExtension.toList <:+ foreign.fileName n) := by
    rintro ⟨-, hsuffix⟩
    have hown : codec.fileExtension.toList <:+ foreign.fileName n := List.suffix_append _ _
    exact hcodec (codec_eq_of_suffix hown hsuffix)
  refine ⟨s!"Invalid filename format {String.ofList (foreign.fileName n)}", ?_⟩
  simp only [parseIterNum, parts_buildJobIterationPath, if_neg (two_le_length_parts foreign code n),
    List.getLastD_concat, foreign, hformat, not_false_eq_true, ↓reduceIte]

/-! ## Telling keys apart -/

/-- A later iteration sorts first. -/
theorem buildJobIterationPath_lt_iff {m n : Nat} (hm : m ≤ u64Max) (hn : n ≤ u64Max) :
    paths.buildJobIterationPath code n < paths.buildJobIterationPath code m ↔ m < n := by
  rw [String.lt_iff_toList_lt, toList_buildJobIterationPath, toList_buildJobIterationPath,
    Decimal.append_lt_append_iff, List.cons_lt_cons_iff]
  simp only [Char.lt_irrefl, true_and, false_or, fileName, List.append_assoc]
  rw [Decimal.append_lt_append_iff, Decimal.append_lt_append_right_iff _
    ((length_number n).trans (length_number m).symm),
    Decimal.padded_lt_padded (by decide) (inverted_lt n) (inverted_lt m)]
  omega

/-- Of the keys of some iterations listed in ascending byte order, the first is that of the
newest. -/
theorem newest_of_ascending {iterNums : List Nat} {first : String} {rest : List String}
    (hrange : ∀ n ∈ iterNums, n ≤ u64Max)
    (hascending : (first :: rest).Pairwise fun a b => Utf8.bytes a < Utf8.bytes b)
    (hkeys : ∀ key, key ∈ first :: rest ↔
      ∃ n ∈ iterNums, paths.buildJobIterationPath code n = key) :
    ∃ newest ∈ iterNums, first = paths.buildJobIterationPath code newest ∧
      ∀ n ∈ iterNums, n ≤ newest := by
  obtain ⟨newest, hnewest, rfl⟩ := (hkeys first).mp List.mem_cons_self
  refine ⟨newest, hnewest, rfl, ?_⟩
  intro n hn
  rcases List.mem_cons.mp ((hkeys _).mpr ⟨n, hn, rfl⟩) with heq | hrest
  · have hparse := paths.parseIterNum_buildJobIterationPath code (hrange n hn)
    rw [heq, paths.parseIterNum_buildJobIterationPath code (hrange newest hnewest)] at hparse
    exact Nat.le_of_eq (Except.ok.inj hparse).symm
  · have hlt := (List.pairwise_cons.mp hascending).1 _ hrest
    rw [Utf8.bytes_lt_iff,
      paths.buildJobIterationPath_lt_iff code (hrange n hn) (hrange newest hnewest)] at hlt
    exact Nat.le_of_lt hlt

/-- Keys are an order-reversing code of iteration numbers: each is read back to its number,
a later iteration has the smaller key byte by byte, and so the first key of an ascending
listing is that of the newest iteration. -/
theorem buildJobIterationPath_reverses {i j : Nat} (hi : i ≤ u64Max) (hj : j ≤ u64Max) :
    paths.parseIterNum (paths.buildJobIterationPath code i) = .ok i ∧
    (Utf8.bytes (paths.buildJobIterationPath code j) <
        Utf8.bytes (paths.buildJobIterationPath code i) ↔ i < j) ∧
    ∀ (iterNums : List Nat) (first : String) (rest : List String),
      (∀ n ∈ iterNums, n ≤ u64Max) →
      ((first :: rest).Pairwise fun a b => Utf8.bytes a < Utf8.bytes b) →
      (∀ key, key ∈ first :: rest ↔ ∃ n ∈ iterNums, paths.buildJobIterationPath code n = key) →
      ∃ newest ∈ iterNums, first = paths.buildJobIterationPath code newest ∧
        ∀ n ∈ iterNums, n ≤ newest := by
  refine ⟨paths.parseIterNum_buildJobIterationPath code hi, ?_, ?_⟩
  · rw [Utf8.bytes_lt_iff, paths.buildJobIterationPath_lt_iff code hi hj]
  · intro iterNums first rest hrange hascending hkeys
    exact paths.newest_of_ascending code hrange hascending hkeys

/-- The two ends of the range, under a code with a character of three bytes. -/
theorem buildJobIterationPath_reverses_ends :
    JobPaths.parseIterNum ⟨"jobs", .cbor⟩
        (JobPaths.buildJobIterationPath ⟨"jobs", .cbor⟩ "état/日" 0) = .ok 0 ∧
    Utf8.bytes (JobPaths.buildJobIterationPath ⟨"jobs", .cbor⟩ "état/日" u64Max) <
      Utf8.bytes (JobPaths.buildJobIterationPath ⟨"jobs", .cbor⟩ "état/日" 0) := by
  have hends := buildJobIterationPath_reverses ⟨"jobs", .cbor⟩ "état/日" (i := 0) (j := u64Max)
    (Nat.zero_le _) (Nat.le_refl _)
  exact ⟨hends.1, hends.2.1.mpr (by decide)⟩

/-- A key names its job and its iteration. -/
theorem buildJobIterationPath_inj {code' : String} {m n : Nat} (hm : m ≤ u64Max) (hn : n ≤ u64Max)
    (h : paths.buildJobIterationPath code n = paths.buildJobIterationPath code' m) :
    code = code' ∧ n = m := by
  have hlist := congrArg String.toList h
  rw [toList_buildJobIterationPath, toList_buildJobIterationPath] at hlist
  have hlen : ('/' :: paths.fileName n).length = ('/' :: paths.fileName m).length := by
    simp [fileName, length_number]
  obtain ⟨hdirectory, -⟩ := List.append_inj' hlist hlen
  have hcode : code = code' := by
    rw [directory, directory, List.append_cancel_left_eq, List.cons.injEq] at hdirectory
    exact String.toList_injective hdirectory.2
  refine ⟨hcode, ?_⟩
  have hparse := paths.parseIterNum_buildJobIterationPath code hn
  rw [h, paths.parseIterNum_buildJobIterationPath code' hm] at hparse
  exact (Except.ok.inj hparse).symm

/-- One code extends another by a slash: the directory of the first lies inside that of the
second. -/
def Extends (code code' : String) : Prop := code.toList ++ ['/'] <+: code'.toList

instance (code code' : String) : Decidable (Extends code code') :=
  inferInstanceAs (Decidable (_ <+: _))

/-- A key lies under the directory of a job exactly when it is one of that job, or of a job
whose code extends that job's code by a slash. -/
theorem under_buildJobPrefix {code' : String} :
    (paths.buildJobPrefix code).toList <+: (paths.buildJobIterationPath code' n).toList ↔
      code = code' ∨ Extends code code' := by
  rw [toList_buildJobPrefix, toList_buildJobIterationPath, directory, directory, List.append_assoc,
    List.append_assoc, List.prefix_append_right_inj, List.cons_append, List.cons_append,
    List.cons_prefix_cons, and_iff_right rfl]
  have hslash := paths.slash_notMem_fileName n
  generalize paths.fileName n = file at hslash
  rw [← String.toList_inj, Extends]
  generalize code.toList = c
  generalize code'.toList = c'
  have hwhole : c' <+: c' ++ '/' :: file := List.prefix_append _ _
  constructor
  · intro h
    rcases Nat.lt_trichotomy c.length c'.length with hlt | heq | hgt
    · exact Or.inr (List.prefix_of_prefix_length_le h hwhole (by simpa [Nat.succ_le_iff] using hlt))
    · have hc : c <+: c' ++ '/' :: file := (List.prefix_append c ['/']).trans h
      exact Or.inl ((List.prefix_of_prefix_length_le hc hwhole (Nat.le_of_eq heq)).eq_of_length heq)
    · -- The slash that ends the directory would stand inside the last path segment.
      have hc : c <+: c' ++ '/' :: file := (List.prefix_append c ['/']).trans h
      have hshort : c' ++ ['/'] <+: c' ++ '/' :: file := by simp
      obtain ⟨rest, rfl⟩ := List.prefix_of_prefix_length_le hshort hc
        (by simpa [Nat.succ_le_iff] using hgt)
      rw [List.append_assoc, List.append_assoc, List.prefix_append_right_inj, List.singleton_append,
        List.cons_prefix_cons] at h
      exact absurd (h.2.mem (by simp)) hslash
  · rintro (rfl | h)
    · simp
    · exact h.trans hwhole

end JobPaths

end JobManager
