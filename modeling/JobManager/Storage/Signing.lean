import JobManager.Storage.Paths
import Mathlib.Data.List.Dedup
import Mathlib.Data.List.Sort

/-!
# Signed requests

A request to the blob service is signed over a text that is put together from its method, its
headers and the resource it addresses.  The service puts the same text together from what
arrives; what the text leaves out is not protected, and what depends on the order in which
headers or parameters happen to be visited would be refused.

Main results:

- Theorem {lit}`string_to_sign_exact`: two requests are signed alike exactly when they agree in
  their method and conditions, in their service headers and in the resource.
- Theorem {lit}`string_to_sign_order`: the order of headers and of parameters does not matter.
-/

namespace JobManager

/-! ## Texts -/

/-- Characters the language counts as white space. -/
def isWhitespace (c : Char) : Bool :=
  (9 ≤ c.toNat && c.toNat ≤ 13) || c.toNat == 32 || c.toNat == 0x85 || c.toNat == 0xA0 ||
    c.toNat == 0x1680 || (0x2000 ≤ c.toNat && c.toNat ≤ 0x200A) || c.toNat == 0x2028 ||
    c.toNat == 0x2029 || c.toNat == 0x202F || c.toNat == 0x205F || c.toNat == 0x3000

/-- Drop what meets a condition at both ends of a text. -/
def trimMatches (isTrimmed : Char → Bool) (text : String) : String :=
  String.ofList ((text.toList.dropWhile isTrimmed).reverse.dropWhile isTrimmed).reverse

/-- Drop white space at both ends of a text. -/
def trim (text : String) : String := trimMatches isWhitespace text

/-- A trimmed text holds no character the text did not hold. -/
theorem mem_of_mem_trimMatches {isTrimmed : Char → Bool} {text : String} {c : Char}
    (h : c ∈ (trimMatches isTrimmed text).toList) : c ∈ text.toList := by
  rw [trimMatches, String.toList_ofList, List.mem_reverse] at h
  exact (List.dropWhile_sublist _).mem
    (List.mem_reverse.mp ((List.dropWhile_sublist _).mem h))

/-! ## Requests -/

/-- A request as it is signed: every header has one value, names are tokens, and neither names
nor values run over a line. -/
structure SignedRequest where
  method : String
  headers : List (String × String)
  path : String
  query : List (String × String)
  names_nodup : (headers.map Prod.fst).Nodup
  method_line : '\n' ∉ method.toList
  name_token : ∀ header ∈ headers, ':' ∉ header.1.toList ∧ '\n' ∉ header.1.toList
  value_line : ∀ header ∈ headers, '\n' ∉ header.2.toList

namespace SignedRequest

variable (request : SignedRequest)

/-- The value of a header, empty where the request has none. -/
def readHeader (name : String) : String := (request.headers.lookup name).getD ""

/-- Neither a missing length nor one of zero is signed. -/
def contentLength : String :=
  if request.readHeader "content-length" = "0" then "" else request.readHeader "content-length"

/-- The fixed slots in their order; the seventh is the date, which travels in a header of the
service. -/
def slots : List String :=
  [request.method, request.readHeader "content-encoding", request.readHeader "content-language",
    request.contentLength, request.readHeader "content-md5", request.readHeader "content-type", "",
    request.readHeader "if-modified-since", request.readHeader "if-match",
    request.readHeader "if-none-match", request.readHeader "if-unmodified-since",
    request.readHeader "range"]

/-- The headers of the service, trimmed and sorted by name. -/
def serviceHeaders : List (String × String) :=
  ((request.headers.filter fun header => "x-ms-".toList <+: header.1.toList).map
    fun header => (header.1, trim header.2)).mergeSort fun a b => decide (a.1 ≤ b.1)

def buildCanonicalizedHeaders : String :=
  String.join (request.serviceHeaders.map fun header => header.1 ++ ":" ++ header.2 ++ "\n")

/-- The names of the parameters in ascending order, each with its sorted values. -/
def parameters (lowercase : String → String) : List (String × List String) :=
  ((request.query.map fun parameter => lowercase parameter.1).dedup.mergeSort
    fun a b => decide (a ≤ b)).map fun name =>
      (name, ((request.query.filter fun parameter => lowercase parameter.1 = name).map
        Prod.snd).mergeSort fun a b => decide (a ≤ b))

def buildCanonicalizedResource (lowercase : String → String) (account : String) : String :=
  "/" ++ account ++ request.path ++
    String.join ((request.parameters lowercase).map fun parameter =>
      "\n" ++ parameter.1 ++ ":" ++ ",".intercalate parameter.2)

/-- The text the signature is taken over. -/
def buildStringToSign (lowercase : String → String) (account : String) : String :=
  String.join (request.slots.map (· ++ "\n")) ++ request.buildCanonicalizedHeaders ++
    request.buildCanonicalizedResource lowercase account

end SignedRequest

/-! ## Texts put together from lines -/

/-- A text is cut at the first separator in one way. -/
theorem cut_first {c : Char} : ∀ {a b x y : List Char}, c ∉ a → c ∉ b →
    a ++ c :: x = b ++ c :: y → a = b ∧ x = y
  | [], [], _, _, _, _, h => ⟨rfl, (List.cons.inj h).2⟩
  | [], d :: b, _, _, _, hb, h => by
      exact absurd (List.mem_cons.mpr (Or.inl (List.cons.inj h).1)) hb
  | d :: a, [], _, _, ha, _, h => by
      exact absurd (List.mem_cons.mpr (Or.inl (List.cons.inj h).1.symm)) ha
  | d :: a, d' :: b, x, y, ha, hb, h => by
      obtain ⟨rfl, hrest⟩ := List.cons.inj h
      obtain ⟨rfl, rfl⟩ := cut_first (fun hmem => ha (List.mem_cons_of_mem _ hmem))
        (fun hmem => hb (List.mem_cons_of_mem _ hmem)) hrest
      exact ⟨rfl, rfl⟩

/-- Equally many lines are told apart from what follows them. -/
theorem lines_unique : ∀ {lines lines' : List (List Char)} {x y : List Char},
    (∀ line ∈ lines, '\n' ∉ line) → (∀ line ∈ lines', '\n' ∉ line) →
    lines.length = lines'.length →
    lines.flatMap (· ++ ['\n']) ++ x = lines'.flatMap (· ++ ['\n']) ++ y →
    lines = lines' ∧ x = y
  | [], [], _, _, _, _, _, h => ⟨rfl, h⟩
  | [], _ :: _, _, _, _, _, hlength, _ => by simp at hlength
  | _ :: _, [], _, _, _, _, hlength, _ => by simp at hlength
  | line :: lines, line' :: lines', x, y, hlines, hlines', hlength, h => by
      rw [List.flatMap_cons, List.flatMap_cons, List.append_assoc, List.append_assoc,
        List.append_assoc, List.append_assoc] at h
      obtain ⟨rfl, hrest⟩ := cut_first (hlines line List.mem_cons_self)
        (hlines' line' List.mem_cons_self) h
      obtain ⟨rfl, rfl⟩ := lines_unique (fun l hl => hlines l (List.mem_cons_of_mem _ hl))
        (fun l hl => hlines' l (List.mem_cons_of_mem _ hl)) (by simpa using hlength) hrest
      exact ⟨rfl, rfl⟩

/-- The line of a header. -/
def headerLine (header : String × String) : List Char :=
  header.1.toList ++ ':' :: (header.2.toList ++ ['\n'])

/-- A header of the service, on one line. -/
structure IsServiceHeader (header : String × String) : Prop where
  isService : "x-ms-".toList <+: header.1.toList
  token : ':' ∉ header.1.toList
  line : '\n' ∉ header.2.toList

/-- The line of a service header begins with its name. -/
theorem headerLine_eq_cons {header : String × String} (h : IsServiceHeader header) :
    ∃ text, headerLine header = 'x' :: text := by
  obtain ⟨rest, hrest⟩ := h.isService
  rw [headerLine, ← hrest]
  exact ⟨_, rfl⟩

/-- The headers of the service are told apart from the resource behind them. -/
theorem headerLines_unique : ∀ {headers headers' : List (String × String)} {x y : List Char},
    (∀ header ∈ headers, IsServiceHeader header) → (∀ header ∈ headers', IsServiceHeader header) →
    headers.flatMap headerLine ++ '/' :: x = headers'.flatMap headerLine ++ '/' :: y →
    headers = headers' ∧ x = y
  | [], [], _, _, _, _, h => ⟨rfl, (List.cons.inj h).2⟩
  | [], header :: headers, _, _, _, hheaders, h => by
      obtain ⟨text, htext⟩ := headerLine_eq_cons (hheaders header List.mem_cons_self)
      rw [List.flatMap_cons, htext] at h
      simp at h
  | header :: headers, [], _, _, hheaders, _, h => by
      obtain ⟨text, htext⟩ := headerLine_eq_cons (hheaders header List.mem_cons_self)
      rw [List.flatMap_cons, htext] at h
      simp at h
  | header :: headers, header' :: headers', x, y, hheaders, hheaders', h => by
      have hheader := hheaders header List.mem_cons_self
      have hheader' := hheaders' header' List.mem_cons_self
      simp only [List.flatMap_cons, headerLine, List.append_assoc, List.cons_append,
        List.nil_append] at h
      obtain ⟨hname, hrest⟩ := cut_first hheader.token hheader'.token h
      obtain ⟨hvalue, hrest⟩ := cut_first hheader.line hheader'.line hrest
      obtain ⟨rfl, rfl⟩ := headerLines_unique (fun l hl => hheaders l (List.mem_cons_of_mem _ hl))
        (fun l hl => hheaders' l (List.mem_cons_of_mem _ hl)) hrest
      exact ⟨by rw [Prod.ext (String.toList_injective hname) (String.toList_injective hvalue)], rfl⟩

/-! ## What is signed -/

namespace SignedRequest

variable {request request' : SignedRequest} {lowercase : String → String} {account : String}

/-- A header that is given once is the one looked up. -/
theorem lookup_eq_some_iff {name value : String} :
    request.headers.lookup name = some value ↔ (name, value) ∈ request.headers := by
  have hnodup := request.names_nodup
  generalize request.headers = headers at hnodup ⊢
  induction headers with
  | nil => simp
  | cons header headers ih =>
      obtain ⟨name', value'⟩ := header
      rw [List.map_cons, List.nodup_cons] at hnodup
      rw [List.lookup_cons, List.mem_cons]
      by_cases hname : name = name'
      · subst hname
        have hnotIn : (name, value) ∉ headers :=
          fun hmem => hnodup.1 (List.mem_map.mpr ⟨_, hmem, rfl⟩)
        simp [hnotIn, eq_comm]
      · rw [beq_false_of_ne hname]
        simp [hname, ih hnodup.2]

/-- A header read is one of the request's, or empty. -/
theorem readHeader_line (name : String) : '\n' ∉ (request.readHeader name).toList := by
  rw [readHeader]
  cases hlookup : request.headers.lookup name with
  | none => simp
  | some value => exact request.value_line _ (lookup_eq_some_iff.mp hlookup)

/-- No slot runs over its line. -/
theorem slots_line : ∀ slot ∈ request.slots, '\n' ∉ slot.toList := by
  have hlength : '\n' ∉ request.contentLength.toList := by
    rw [contentLength]
    split
    · simp
    · exact readHeader_line _
  simp only [slots, List.forall_mem_cons]
  exact ⟨request.method_line, readHeader_line _, readHeader_line _, hlength, readHeader_line _,
    readHeader_line _, by simp, readHeader_line _, readHeader_line _, readHeader_line _,
    readHeader_line _, readHeader_line _, by simp⟩

/-- The service headers are those given under a name of the service, trimmed. -/
theorem mem_serviceHeaders {name value : String} :
    (name, value) ∈ request.serviceHeaders ↔
      "x-ms-".toList <+: name.toList ∧ ∃ given, (name, given) ∈ request.headers ∧
        value = trim given := by
  rw [serviceHeaders, (List.mergeSort_perm _ _).mem_iff, List.mem_map]
  constructor
  · rintro ⟨⟨name', given⟩, hmem, heq⟩
    obtain ⟨hmem, hservice⟩ := List.mem_filter.mp hmem
    cases heq
    exact ⟨by simpa using hservice, given, hmem, rfl⟩
  · rintro ⟨hservice, given, hmem, rfl⟩
    exact ⟨(name, given), List.mem_filter.mpr ⟨hmem, by simpa using hservice⟩, rfl⟩

/-- And are such headers. -/
theorem serviceHeaders_are : ∀ header ∈ request.serviceHeaders, IsServiceHeader header := by
  rintro ⟨name, value⟩ hmem
  obtain ⟨hservice, given, hgiven, rfl⟩ := mem_serviceHeaders.mp hmem
  exact ⟨hservice, (request.name_token _ hgiven).1,
    fun hline => request.value_line _ hgiven (mem_of_mem_trimMatches hline)⟩

/-- And each stands once. -/
theorem serviceHeaders_nodup : (request.serviceHeaders.map Prod.fst).Nodup := by
  have hperm := (List.mergeSort_perm ((request.headers.filter fun header =>
    "x-ms-".toList <+: header.1.toList).map fun header => (header.1, trim header.2))
      fun a b => decide (a.1 ≤ b.1)).map Prod.fst
  refine hperm.nodup_iff.mpr ?_
  rw [List.map_map]
  exact request.names_nodup.sublist (List.filter_sublist.map Prod.fst)

/-- Sorted headers with distinct names are the same where they have the same members. -/
theorem serviceHeaders_ext
    (h : ∀ header, header ∈ request.serviceHeaders ↔ header ∈ request'.serviceHeaders) :
    request.serviceHeaders = request'.serviceHeaders := by
  have hsorted : ∀ r : SignedRequest, r.serviceHeaders.Pairwise fun a b => a.1 ≤ b.1 := by
    intro r
    have hpairwise : ∀ l : List (String × String),
        (l.mergeSort fun a b => decide (a.1 ≤ b.1)).Pairwise fun a b => decide (a.1 ≤ b.1) = true :=
      List.pairwise_mergeSort
        (fun a b c hab hbc =>
          decide_eq_true ((of_decide_eq_true hab).trans (of_decide_eq_true hbc)))
        (fun a b => by simpa using le_total a.1 b.1)
    exact (hpairwise _).imp fun hle => of_decide_eq_true hle
  have hnodup : ∀ r : SignedRequest, r.serviceHeaders.Nodup := fun r =>
    r.serviceHeaders_nodup.of_map Prod.fst
  refine List.Perm.eq_of_pairwise ?_ (hsorted request) (hsorted request')
    ((List.perm_ext_iff_of_nodup (hnodup request) (hnodup request')).mpr h)
  intro a b ha hb hab hba
  exact List.inj_on_of_nodup_map request'.serviceHeaders_nodup ((h a).mp ha) hb
    (le_antisymm hab hba)

/-- The text is its slots, its headers and its resource. -/
theorem toList_buildStringToSign :
    (request.buildStringToSign lowercase account).toList =
      (request.slots.map String.toList).flatMap (· ++ ['\n']) ++
        (request.serviceHeaders.flatMap headerLine ++
          (request.buildCanonicalizedResource lowercase account).toList) := by
  have hslots : (String.join (request.slots.map (· ++ "\n"))).toList =
      (request.slots.map String.toList).flatMap (· ++ ['\n']) := by
    simp [String.toList_join, List.flatMap_map]
  have hheaders : request.buildCanonicalizedHeaders.toList =
      request.serviceHeaders.flatMap headerLine := by
    rw [buildCanonicalizedHeaders, String.toList_join, List.flatMap_map]
    congr 1
    funext header
    simp [headerLine]
  rw [buildStringToSign, String.toList_append, String.toList_append, hslots, hheaders,
    List.append_assoc]

/-- The resource begins with a slash. -/
theorem toList_buildCanonicalizedResource :
    ∃ text, (request.buildCanonicalizedResource lowercase account).toList = '/' :: text := by
  rw [buildCanonicalizedResource]
  simp only [String.toList_append]
  exact ⟨_, rfl⟩

/-- Requests that agree in these are signed over one text. -/
theorem buildStringToSign_congr (hslots : request.slots = request'.slots)
    (hheaders : ∀ header, header ∈ request.serviceHeaders ↔ header ∈ request'.serviceHeaders)
    (hresource : request.buildCanonicalizedResource lowercase account =
      request'.buildCanonicalizedResource lowercase account) :
    request.buildStringToSign lowercase account =
      request'.buildStringToSign lowercase account := by
  rw [buildStringToSign, buildStringToSign, buildCanonicalizedHeaders, buildCanonicalizedHeaders,
    hslots, serviceHeaders_ext hheaders, hresource]

/-- Sorting forgets the order. -/
theorem mergeSort_of_perm {l l' : List String} (h : l.Perm l') :
    l.mergeSort (fun a b => decide (a ≤ b)) = l'.mergeSort fun a b => decide (a ≤ b) := by
  have hsorted : ∀ l : List String, (l.mergeSort fun a b => decide (a ≤ b)).Pairwise (· ≤ ·) :=
    fun l => List.pairwise_mergeSort' (· ≤ ·) l
  refine List.Perm.eq_of_pairwise (fun a b _ _ => le_antisymm) (hsorted l) (hsorted l') ?_
  exact (List.mergeSort_perm l _).trans (h.trans (List.mergeSort_perm l' _).symm)

/-- The order the parameters are given in is lost. -/
theorem parameters_perm (h : request.query.Perm request'.query) :
    request.parameters lowercase = request'.parameters lowercase := by
  have hnames := mergeSort_of_perm (h.map fun parameter => lowercase parameter.1).dedup
  rw [parameters, parameters, hnames]
  refine List.map_congr_left fun name _ => ?_
  rw [mergeSort_of_perm ((h.filter fun parameter => lowercase parameter.1 = name).map Prod.snd)]

end SignedRequest

open SignedRequest in
/-- Two requests are signed alike exactly when they agree in the method and the fixed header
slots, the conditions among them, in the headers of the service, and in the resource. -/
theorem string_to_sign_exact (lowercase : String → String) (account : String)
    (request request' : SignedRequest) :
    request.buildStringToSign lowercase account = request'.buildStringToSign lowercase account ↔
      request.slots = request'.slots ∧
      (∀ name value, "x-ms-".toList <+: name.toList →
        ((∃ given, (name, given) ∈ request.headers ∧ value = trim given) ↔
          ∃ given, (name, given) ∈ request'.headers ∧ value = trim given)) ∧
      request.buildCanonicalizedResource lowercase account =
        request'.buildCanonicalizedResource lowercase account := by
  constructor
  · intro h
    have hlists := congrArg String.toList h
    rw [toList_buildStringToSign, toList_buildStringToSign] at hlists
    have hline : ∀ r : SignedRequest, ∀ line ∈ r.slots.map String.toList, '\n' ∉ line := by
      intro r line hmem
      obtain ⟨slot, hslot, rfl⟩ := List.mem_map.mp hmem
      exact r.slots_line slot hslot
    obtain ⟨hslots, hrest⟩ := lines_unique (hline request) (hline request') rfl hlists
    obtain ⟨text, htext⟩ := request.toList_buildCanonicalizedResource
    obtain ⟨text', htext'⟩ := request'.toList_buildCanonicalizedResource
    rw [htext, htext'] at hrest
    obtain ⟨hheaders, rfl⟩ := headerLines_unique request.serviceHeaders_are
      request'.serviceHeaders_are hrest
    refine ⟨List.map_injective_iff.mpr (fun _ _ => String.toList_injective) hslots, ?_,
      String.toList_injective (htext.trans htext'.symm)⟩
    intro name value hservice
    have hmem : (name, value) ∈ request.serviceHeaders ↔
        (name, value) ∈ request'.serviceHeaders := by
      rw [hheaders]
    rw [mem_serviceHeaders, mem_serviceHeaders] at hmem
    exact (and_congr_right_iff.mp hmem) hservice
  · rintro ⟨hslots, hheaders, hresource⟩
    refine buildStringToSign_congr hslots ?_ hresource
    rintro ⟨name, value⟩
    rw [mem_serviceHeaders, mem_serviceHeaders]
    exact and_congr_right fun hservice => hheaders name value hservice

open SignedRequest in
/-- Requests that differ only in the order of their headers and of their parameters are signed
alike. -/
theorem string_to_sign_order (lowercase : String → String) (account : String)
    {request request' : SignedRequest} (hmethod : request.method = request'.method)
    (hpath : request.path = request'.path) (hheaders : request.headers.Perm request'.headers)
    (hquery : request.query.Perm request'.query) :
    request.buildStringToSign lowercase account =
      request'.buildStringToSign lowercase account := by
  have hread : ∀ name, request.readHeader name = request'.readHeader name := by
    intro name
    have hlookup : request.headers.lookup name = request'.headers.lookup name := by
      ext value
      rw [lookup_eq_some_iff, lookup_eq_some_iff, hheaders.mem_iff]
    rw [readHeader, readHeader, hlookup]
  have hslots : request.slots = request'.slots := by
    simp only [slots, contentLength, hmethod, hread]
  refine buildStringToSign_congr hslots ?_ ?_
  · rintro ⟨name, value⟩
    simp only [mem_serviceHeaders, hheaders.mem_iff]
  · rw [buildCanonicalizedResource, buildCanonicalizedResource, hpath, parameters_perm hquery]

/-- A conditional write of a blob. -/
def conditionalWrite : SignedRequest where
  method := "PUT"
  headers := [("if-match", "e1"), ("x-ms-version", "2025"), ("x-ms-date", "today")]
  path := "/jobs/a"
  query := [("comp", "b"), ("comp", "a")]
  names_nodup := by decide
  method_line := by decide
  name_token := by decide
  value_line := by decide

/-- The same write, its headers and parameters visited the other way round. -/
def conditionalWriteReversed : SignedRequest where
  method := "PUT"
  headers := [("x-ms-date", "today"), ("x-ms-version", "2025"), ("if-match", "e1")]
  path := "/jobs/a"
  query := [("comp", "a"), ("comp", "b")]
  names_nodup := by decide
  method_line := by decide
  name_token := by decide
  value_line := by decide

theorem conditionalWrite_order :
    conditionalWrite.headers ≠ conditionalWriteReversed.headers ∧
      conditionalWrite.buildStringToSign id "a" =
        conditionalWriteReversed.buildStringToSign id "a" :=
  ⟨by decide, string_to_sign_order id "a" rfl rfl (by decide) (by decide)⟩

end JobManager
