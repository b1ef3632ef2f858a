import JobManager.Library.Percent
import JobManager.Library.Decimal

/-!
# Requests of the JSON API

The client of Google Cloud Storage names a bucket, an object and the conditions of a request in
its address.  Names and versions come from outside and may hold every character the address is
split at.

Main results:

- Theorem {lit}`gcs_addresses_read_back`: whatever the bucket, the keys, the versions and the
  cursors are, the address of every request is read back as the segments and parameters it was
  built from.
-/

namespace JobManager

/-! ## The client -/

/-- Bytes that are written plainly. -/
def isUnreserved (byte : UInt8) : Bool :=
  (48 ≤ byte && byte ≤ 57) || (65 ≤ byte && byte ≤ 90) || (97 ≤ byte && byte ≤ 122) ||
    byte == 45 || byte == 95 || byte == 46 || byte == 126

/-- Percent-encodes everything but the unreserved characters. -/
def encodeUriComponent (component : String) : String :=
  String.ofList (Percent.encode isUnreserved (Utf8.bytes component))

/-- One bucket of the JSON API. -/
structure GcsHttpClient where
  endpoint : String
  bucketName : String

namespace GcsHttpClient

variable (client : GcsHttpClient)

/-- Address of one object, its name encoded into a single segment. -/
def buildObjectUrl (key : String) : String :=
  s!"{client.endpoint}/storage/v1/b/{encodeUriComponent client.bucketName}" ++
    s!"/o/{encodeUriComponent key}"

/-- Address of a write, conditioned on the generation it replaces. -/
def putObject (key ifGenerationMatch : String) : String :=
  s!"{client.endpoint}/upload/storage/v1/b/{encodeUriComponent client.bucketName}/o" ++
    s!"?uploadType=media&name={encodeUriComponent key}" ++
      s!"&ifGenerationMatch={encodeUriComponent ifGenerationMatch}"

/-- Address of a read of one generation. -/
def getObject (key ifGenerationMatch : String) : String :=
  s!"{client.buildObjectUrl key}?alt=media" ++
    s!"&ifGenerationMatch={encodeUriComponent ifGenerationMatch}"

/-- Address of a read of any other generation. -/
def getChangedObject (key ifGenerationNotMatch : String) : String :=
  s!"{client.buildObjectUrl key}?alt=media" ++
    s!"&ifGenerationNotMatch={encodeUriComponent ifGenerationNotMatch}"

/-- Address of one page of a listing. -/
def listObjects (directory : String) (startKey : Option String) (pageSize : Nat)
    (cursor : Option String) : String :=
  s!"{client.endpoint}/storage/v1/b/{encodeUriComponent client.bucketName}/o" ++
    s!"?prefix={encodeUriComponent directory}&maxResults={pageSize}" ++
      (match startKey with
      | some startKey => "&startOffset=" ++ encodeUriComponent startKey
      | none => "") ++
      (match cursor with
      | some cursor => "&pageToken=" ++ encodeUriComponent cursor
      | none => "")

/-- Address of a deletion. -/
def deleteObject (key : String) : String := client.buildObjectUrl key

/-- Address of the bucket itself. -/
def findBucket : String :=
  s!"{client.endpoint}/storage/v1/b/{encodeUriComponent client.bucketName}"

/-- Address of the creation of the bucket. -/
def createBucket (projectId : String) : String :=
  s!"{client.endpoint}/storage/v1/b?project={encodeUriComponent projectId}"

end GcsHttpClient

/-! ## How an address is read -/

/-- The segments of a path and the parameters of a query, as bytes. -/
structure ReadTarget where
  segments : List (List UInt8)
  parameters : List (List UInt8 × List UInt8)
deriving DecidableEq

/-- A parameter is a name and a value. -/
def readParameter (parameter : List Char) : Option (List UInt8 × List UInt8) :=
  match parameter.splitOn '=' with
  | [name, value] => do return (← Percent.decode name, ← Percent.decode value)
  | _ => none

/-- What is read behind the endpoint: segments up to a question mark, parameters after it. -/
def readTarget (target : List Char) : Option ReadTarget :=
  match target.splitOn '?' with
  | [path] => do return ⟨← (path.splitOn '/').mapM Percent.decode, []⟩
  | [path, query] => do
      return ⟨← (path.splitOn '/').mapM Percent.decode, ← (query.splitOn '&').mapM readParameter⟩
  | _ => none

/-- What is read of an address of the given endpoint. -/
def readAddress (endpoint address : String) : Option ReadTarget :=
  if endpoint.toList <+: address.toList then
    readTarget (address.toList.drop endpoint.toList.length)
  else none

/-- Segments and parameters as they are sent. -/
def ReadTarget.ofTexts (segments : List String) (parameters : List (String × String)) :
    ReadTarget where
  segments := ("" :: segments).map Utf8.bytes
  parameters := parameters.map fun parameter => (Utf8.bytes parameter.1, Utf8.bytes parameter.2)

/-! ## What is sent is what is read -/

/-- A piece of an address with the text it is read as; it is split nowhere. -/
structure Piece where
  written : List Char
  text : String
  decoded : Percent.decode written = some (Utf8.bytes text)
  whole : ∀ c ∈ ['/', '?', '&', '='], c ∉ written

namespace Piece

/-- What is left unencoded is within ASCII. -/
theorem isUnreserved_ascii (b : UInt8) (h : isUnreserved b = true) : b.toNat < 128 := by
  simp only [isUnreserved, Bool.or_eq_true, Bool.and_eq_true, decide_eq_true_eq, beq_iff_eq,
    UInt8.le_iff_toNat_le, ← UInt8.toNat_inj] at h
  simp at h
  omega

/-- An encoded text. -/
def encoded (text : String) : Piece where
  written := (encodeUriComponent text).toList
  text := text
  decoded := by
    rw [encodeUriComponent, String.toList_ofList]
    exact Percent.decode_encode (by decide) isUnreserved_ascii _
  whole := by
    have hreserved : ∀ c ∈ ['/', '?', '&', '='],
        isUnreserved (UInt8.ofNat c.toNat) = false ∧ c ≠ '%' ∧ c ∉ Percent.hexDigits := by
      simp only [List.forall_mem_cons, List.not_mem_nil, false_imp_iff, forall_const]
      decide
    intro c hc
    obtain ⟨hplain, hpercent, hdigit⟩ := hreserved c hc
    rw [encodeUriComponent, String.toList_ofList]
    refine Percent.not_mem_encode ?_ hpercent hdigit _
    rintro b hb rfl
    rw [Percent.toNat_ofNat b.toNat (isUnreserved_ascii b hb), UInt8.ofNat_toNat, hb] at hplain
    cases hplain

/-- Characters that stand for themselves and separate nothing. -/
def isPlain (c : Char) : Bool := !(['%', '/', '?', '&', '='].elem c) && Nat.blt c.toNat 128

/-- A plain character stands for itself and separates nothing. -/
theorem isPlain_eq_true {c : Char} :
    isPlain c = true ↔ c ∉ ['%', '/', '?', '&', '='] ∧ c.toNat < 128 := by
  rw [isPlain, Bool.and_eq_true, Bool.not_eq_true', ← Bool.not_eq_true, List.elem_iff,
    Nat.blt_eq]

/-- A text of plain characters. -/
def plain (text : String) (h : text.toList.all isPlain = true) : Piece where
  written := text.toList
  text := text
  decoded := by
    rw [Utf8.bytes_eq_flatMap]
    refine Percent.decode_plain fun c hc => ?_
    obtain ⟨hmem, hlow⟩ := isPlain_eq_true.mp (List.all_eq_true.mp h c hc)
    refine ⟨?_, hlow⟩
    rintro rfl
    exact hmem (by simp)
  whole := fun c hc hmem =>
    (isPlain_eq_true.mp (List.all_eq_true.mp h c hmem)).1 (List.mem_cons_of_mem _ hc)

/-- A number is written in plain characters. -/
theorem digits_plain (n : Nat) : (toString n).toList.all isPlain = true := by
  refine List.all_eq_true.mpr fun c hc => isPlain_eq_true.mpr ?_
  have hdigit : c.isDigit = true := by
    rw [Nat.toString_eq_repr, Nat.toList_repr] at hc
    exact Nat.isDigit_of_mem_toDigits (by decide) (by decide) hc
  obtain ⟨hlow, hhigh⟩ := Decimal.digit_bounds hdigit
  have hreserved : ∀ c ∈ ['%', '/', '?', '&', '='], ¬(48 ≤ c.toNat ∧ c.toNat ≤ 57) := by
    simp only [List.forall_mem_cons, List.not_mem_nil, false_imp_iff, forall_const]
    decide
  exact ⟨fun hmem => hreserved c hmem ⟨hlow, hhigh⟩, by omega⟩

/-- A parameter as it is written. -/
def parameter (p : Piece × Piece) : List Char := p.1.written ++ '=' :: p.2.written

/-- Segments and parameters as they stand behind the endpoint. -/
def target (segments : List Piece) (parameters : List (Piece × Piece)) : List Char :=
  let path := ['/'].intercalate (segments.map written)
  if parameters = [] then path
  else path ++ '?' :: ['&'].intercalate (parameters.map parameter)

variable {segments : List Piece} {parameters : List (Piece × Piece)}

/-- Every segment decodes to the text it was written for. -/
theorem mapM_decode (segments : List Piece) :
    (segments.map written).mapM Percent.decode =
      some (segments.map fun piece => Utf8.bytes piece.text) := by
  induction segments with
  | nil => rfl
  | cons piece segments ih =>
      rw [List.map_cons, List.mapM_cons, piece.decoded, ih]
      rfl

/-- Every parameter reads back as the pair it was written for. -/
theorem mapM_readParameter (parameters : List (Piece × Piece)) :
    (parameters.map parameter).mapM readParameter =
      some (parameters.map fun p => (Utf8.bytes p.1.text, Utf8.bytes p.2.text)) := by
  induction parameters with
  | nil => rfl
  | cons p parameters ih =>
      have hread : readParameter (parameter p) =
          some (Utf8.bytes p.1.text, Utf8.bytes p.2.text) := by
        rw [readParameter, parameter, List.splitOn_append_cons_self,
          List.splitOn_eq_singleton (p.1.whole '=' (by simp)),
          List.splitOn_eq_singleton (p.2.whole '=' (by simp))]
        simp [p.1.decoded, p.2.decoded]
      rw [List.map_cons, List.mapM_cons, hread, ih]
      rfl

/-- A character that is in no piece is not in pieces that are joined by another one. -/
theorem not_mem_intercalate {c d : Char} (hne : c ≠ d) :
    ∀ pieces : List (List Char), (∀ piece ∈ pieces, c ∉ piece) → c ∉ [d].intercalate pieces
  | [], _ => by simp
  | [piece], h => by simpa using h
  | piece :: piece' :: pieces, h => by
      have ih := not_mem_intercalate hne (piece' :: pieces) fun q hq =>
        h q (List.mem_cons_of_mem _ hq)
      rw [List.intercalate_cons_cons]
      simp only [List.mem_append, List.mem_singleton, not_or]
      exact ⟨⟨h piece List.mem_cons_self, hne⟩, ih⟩

/-- No written segment holds a separator. -/
theorem not_mem_written {c : Char} (hc : c ∈ ['/', '?', '&', '=']) :
    ∀ piece ∈ segments.map written, c ∉ piece := by
  rintro _ hmem
  obtain ⟨piece, -, rfl⟩ := List.mem_map.mp hmem
  exact piece.whole c hc

/-- No parameter holds a separator of parameters. -/
theorem not_mem_parameter {c : Char} (hc : c ∈ ['?', '&']) :
    ∀ p ∈ parameters.map parameter, c ∉ p := by
  have hreserved : ∀ c ∈ ['?', '&'], c ∈ ['/', '?', '&', '='] ∧ c ≠ '=' := by
    simp only [List.forall_mem_cons, List.not_mem_nil, false_imp_iff, forall_const]
    decide
  obtain ⟨hmem, hne⟩ := hreserved c hc
  rintro _ hp
  obtain ⟨p, -, rfl⟩ := List.mem_map.mp hp
  rw [parameter, List.mem_append, List.mem_cons, not_or, not_or]
  exact ⟨p.1.whole c hmem, hne, p.2.whole c hmem⟩

/-- Segments and parameters are read as what their pieces are. -/
theorem readTarget_target (hsegments : segments ≠ []) :
    readTarget (target segments parameters) =
      some ⟨segments.map fun piece => Utf8.bytes piece.text,
        parameters.map fun p => (Utf8.bytes p.1.text, Utf8.bytes p.2.text)⟩ := by
  have hpath : (['/'].intercalate (segments.map written)).splitOn '?' =
      [['/'].intercalate (segments.map written)] :=
    List.splitOn_eq_singleton (not_mem_intercalate (by decide) _ (not_mem_written (by simp)))
  have hsegmentsOf : (['/'].intercalate (segments.map written)).splitOn '/' =
      segments.map written :=
    List.splitOn_intercalate '/' (not_mem_written (by simp)) (by simpa using hsegments)
  by_cases hnone : parameters = []
  · subst hnone
    rw [target, if_pos rfl, readTarget, hpath]
    simp only [hsegmentsOf, mapM_decode]
    rfl
  · have hquery : (['&'].intercalate (parameters.map parameter)).splitOn '?' =
        [['&'].intercalate (parameters.map parameter)] :=
      List.splitOn_eq_singleton (not_mem_intercalate (by decide) _ (not_mem_parameter (by simp)))
    have hparametersOf : (['&'].intercalate (parameters.map parameter)).splitOn '&' =
        parameters.map parameter :=
      List.splitOn_intercalate '&' (not_mem_parameter (by simp)) (by simpa using hnone)
    rw [target, if_neg hnone, readTarget, List.splitOn_append_cons_self, hpath, hquery]
    simp only [List.singleton_append, hsegmentsOf, mapM_decode, hparametersOf, mapM_readParameter]
    rfl

/-- An address of pieces is read as what the pieces are. -/
theorem readAddress_eq {endpoint address : String} (segments : List Piece)
    (parameters : List (Piece × Piece))
    (h : address.toList = endpoint.toList ++ target (plain "" (by simp) :: segments) parameters) :
    readAddress endpoint address =
      some (.ofTexts (segments.map text) (parameters.map fun p => (p.1.text, p.2.text))) := by
  rw [readAddress, h, if_pos (List.prefix_append _ _), List.drop_left,
    readTarget_target (by simp)]
  simp [ReadTarget.ofTexts, plain]

end Piece

namespace GcsHttpClient

variable (client : GcsHttpClient)

/-- The segments of a bucket. -/
def bucketPieces : List Piece :=
  [.plain "storage" (by decide), .plain "v1" (by decide), .plain "b" (by decide),
    .encoded client.bucketName]

/-- The segments of an object. -/
def objectPieces (key : String) : List Piece :=
  client.bucketPieces ++ [.plain "o" (by decide), .encoded key]

/-- A read of an object, conditioned by one parameter. -/
def mediaPieces (condition : Piece) (generation : String) : List (Piece × Piece) :=
  [(.plain "alt" (by decide), .plain "media" (by decide)), (condition, .encoded generation)]

/-- An optional parameter. -/
def optionalPieces (name : Piece) (value : Option String) : List (Piece × Piece) :=
  (value.map fun value => (name, Piece.encoded value)).toList

/-- The address of a write reads back. -/
theorem readAddress_putObject (key generation : String) :
    readAddress client.endpoint (client.putObject key generation) =
      some (.ofTexts ["upload", "storage", "v1", "b", client.bucketName, "o"]
        [("uploadType", "media"), ("name", key), ("ifGenerationMatch", generation)]) := by
  refine Piece.readAddress_eq
    (.plain "upload" (by decide) :: client.bucketPieces ++ [.plain "o" (by decide)])
    [(.plain "uploadType" (by decide), .plain "media" (by decide)),
      (.plain "name" (by decide), .encoded key),
      (.plain "ifGenerationMatch" (by decide), .encoded generation)] ?_
  simp [putObject, bucketPieces, Piece.target, Piece.parameter, Piece.plain, Piece.encoded,
    toString]

/-- The address of a read reads back. -/
theorem readAddress_getObject (key generation : String) :
    readAddress client.endpoint (client.getObject key generation) =
      some (.ofTexts ["storage", "v1", "b", client.bucketName, "o", key]
        [("alt", "media"), ("ifGenerationMatch", generation)]) := by
  refine Piece.readAddress_eq (client.objectPieces key)
    (mediaPieces (.plain "ifGenerationMatch" (by decide)) generation) ?_
  simp [getObject, buildObjectUrl, objectPieces, bucketPieces, mediaPieces, Piece.target,
    Piece.parameter, Piece.plain, Piece.encoded, toString]

/-- The address of a conditional read reads back. -/
theorem readAddress_getChangedObject (key generation : String) :
    readAddress client.endpoint (client.getChangedObject key generation) =
      some (.ofTexts ["storage", "v1", "b", client.bucketName, "o", key]
        [("alt", "media"), ("ifGenerationNotMatch", generation)]) := by
  refine Piece.readAddress_eq (client.objectPieces key)
    (mediaPieces (.plain "ifGenerationNotMatch" (by decide)) generation) ?_
  simp [getChangedObject, buildObjectUrl, objectPieces, bucketPieces, mediaPieces, Piece.target,
    Piece.parameter, Piece.plain, Piece.encoded, toString]

/-- The address of a listing reads back, with the parameters it was given. -/
theorem readAddress_listObjects (directory : String) (startKey : Option String) (pageSize : Nat)
    (cursor : Option String) :
    readAddress client.endpoint (client.listObjects directory startKey pageSize cursor) =
      some (.ofTexts ["storage", "v1", "b", client.bucketName, "o"]
        ([("prefix", directory), ("maxResults", toString pageSize)] ++
          (startKey.map ("startOffset", ·)).toList ++ (cursor.map ("pageToken", ·)).toList)) := by
  have hread : readAddress client.endpoint (client.listObjects directory startKey pageSize cursor) =
      _ := Piece.readAddress_eq (client.bucketPieces ++ [.plain "o" (by decide)])
    ([(.plain "prefix" (by decide), .encoded directory),
        (.plain "maxResults" (by decide),
          .plain (toString pageSize) (Piece.digits_plain pageSize))] ++
      optionalPieces (.plain "startOffset" (by decide)) startKey ++
      optionalPieces (.plain "pageToken" (by decide)) cursor) (by
      cases startKey <;> cases cursor <;>
        simp [listObjects, bucketPieces, optionalPieces, Piece.target, Piece.parameter, Piece.plain,
          Piece.encoded, toString])
  rw [hread]
  cases startKey <;> cases cursor <;> rfl

/-- The address of a deletion reads back. -/
theorem readAddress_deleteObject (key : String) :
    readAddress client.endpoint (client.deleteObject key) =
      some (.ofTexts ["storage", "v1", "b", client.bucketName, "o", key] []) := by
  refine Piece.readAddress_eq (client.objectPieces key) [] ?_
  simp [deleteObject, buildObjectUrl, objectPieces, bucketPieces, Piece.target, Piece.plain,
    Piece.encoded, toString]

/-- The address of a look for the bucket reads back. -/
theorem readAddress_findBucket :
    readAddress client.endpoint client.findBucket =
      some (.ofTexts ["storage", "v1", "b", client.bucketName] []) := by
  refine Piece.readAddress_eq client.bucketPieces [] ?_
  simp [findBucket, bucketPieces, Piece.target, Piece.plain, Piece.encoded, toString]

/-- The address of its creation reads back. -/
theorem readAddress_createBucket (projectId : String) :
    readAddress client.endpoint (client.createBucket projectId) =
      some (.ofTexts ["storage", "v1", "b"] [("project", projectId)]) := by
  refine Piece.readAddress_eq
    [.plain "storage" (by decide), .plain "v1" (by decide), .plain "b" (by decide)]
    [(.plain "project" (by decide), .encoded projectId)] ?_
  simp [createBucket, Piece.target, Piece.parameter, Piece.plain, Piece.encoded, toString]

end GcsHttpClient

/-- Whatever the endpoint, the bucket, the keys, the versions and the cursors are, whoever splits
the address of a request at its slashes, its question mark and its parameters and decodes the
pieces reads the segments and parameters it was built from.  A reader that resolves the segments
of a path first, as those of web addresses do, takes a bucket or key that is just one dot or two
for a step of the path; their escape leaves dots as they are. -/
theorem gcs_addresses_read_back (client : GcsHttpClient) :
    (∀ key generation, readAddress client.endpoint (client.putObject key generation) =
      some (.ofTexts ["upload", "storage", "v1", "b", client.bucketName, "o"]
        [("uploadType", "media"), ("name", key), ("ifGenerationMatch", generation)])) ∧
    (∀ key generation, readAddress client.endpoint (client.getObject key generation) =
      some (.ofTexts ["storage", "v1", "b", client.bucketName, "o", key]
        [("alt", "media"), ("ifGenerationMatch", generation)])) ∧
    (∀ key generation, readAddress client.endpoint (client.getChangedObject key generation) =
      some (.ofTexts ["storage", "v1", "b", client.bucketName, "o", key]
        [("alt", "media"), ("ifGenerationNotMatch", generation)])) ∧
    (∀ directory startKey pageSize cursor,
      readAddress client.endpoint (client.listObjects directory startKey pageSize cursor) =
        some (.ofTexts ["storage", "v1", "b", client.bucketName, "o"]
          ([("prefix", directory), ("maxResults", toString pageSize)] ++
            (startKey.map ("startOffset", ·)).toList ++ (cursor.map ("pageToken", ·)).toList))) ∧
    (∀ key, readAddress client.endpoint (client.deleteObject key) =
      some (.ofTexts ["storage", "v1", "b", client.bucketName, "o", key] [])) ∧
    readAddress client.endpoint client.findBucket =
      some (.ofTexts ["storage", "v1", "b", client.bucketName] []) ∧
    ∀ projectId, readAddress client.endpoint (client.createBucket projectId) =
      some (.ofTexts ["storage", "v1", "b"] [("project", projectId)]) :=
  ⟨client.readAddress_putObject, client.readAddress_getObject, client.readAddress_getChangedObject,
    client.readAddress_listObjects, client.readAddress_deleteObject, client.readAddress_findBucket,
    client.readAddress_createBucket⟩

end JobManager
