import PgMetrics.Proofs.Telemetry.Orders
import PgMetrics.Proofs.Text.Fields

/-! # Metadata survives being written as headers

Metadata is written as `key=value` entries between commas, with any blanks around keys and values
and with bytes in base 64; what is no entry may stand between them.  Read back it is the same
metadata, in whatever order the headers are gone through, as long as what holds the metadata has room
for as many entries as there are headers.
-/
namespace PgMetrics.Telemetry

open Text (isBlank IsTrimmed)

def MetadataValue.written : MetadataValue → List Char
  | .text s => s.toList
  | .bytes b => Text.Base64.encode b

/-- Whether a value can stand under a key: bytes where the key asks for them, and elsewhere a text
that a header may have and that neither commas nor trimming break up. -/
def MetadataValue.Fits (key : String) : MetadataValue → Prop
  | .text s => isBinaryKey key = false ∧ isHeaderText s = true ∧ ',' ∉ s.toList ∧ IsTrimmed s.toList
  | .bytes _ => isBinaryKey key = true

instance (key : String) : DecidablePred (MetadataValue.Fits key)
  | .text s => inferInstanceAs (Decidable (isBinaryKey key = false ∧ isHeaderText s = true ∧
      ',' ∉ s.toList ∧ IsTrimmed s.toList))
  | .bytes _ => inferInstanceAs (Decidable (isBinaryKey key = true))

structure IsWritable (entry : String × MetadataValue) : Prop where
  key : isKey entry.1 = true
  lower : entry.1.toLower = entry.1
  value : entry.2.Fits entry.1

instance : DecidablePred IsWritable := fun entry =>
  decidable_of_iff
    (isKey entry.1 = true ∧ entry.1.toLower = entry.1 ∧ entry.2.Fits entry.1)
    ⟨fun h => ⟨h.1, h.2.1, h.2.2⟩, fun h => ⟨h.key, h.lower, h.value⟩⟩

abbrev Blanks := { cs : List Char // ∀ c ∈ cs, isBlank c = true }

structure Margins where
  beforeKey : Blanks
  afterKey : Blanks
  beforeValue : Blanks
  afterValue : Blanks

/-- What stands between two commas. -/
inductive Piece where
  | header (key : String) (value : MetadataValue) (margins : Margins)
  /-- No entry, for want of an equals sign. -/
  | plain (cs : List Char) (comma : ',' ∉ cs) (equals : '=' ∉ cs)
  /-- No entry, for want of a key. -/
  | keyless (key : Blanks) (value : List Char) (comma : ',' ∉ value)

namespace Piece

def written : Piece → List Char
  | header key value margins =>
    (margins.beforeKey.1 ++ (key.toList ++ margins.afterKey.1)) ++
      '=' :: (margins.beforeValue.1 ++ (value.written ++ margins.afterValue.1))
  | plain cs _ _ => cs
  | keyless key value _ => key.1 ++ '=' :: value

def carried? : Piece → Option (String × MetadataValue)
  | header key value _ => some (key, value)
  | plain _ _ _ => none
  | keyless _ _ _ => none

def text (pieces : List Piece) : String :=
  String.ofList (Text.joinFields ',' (pieces.map written))

end Piece

theorem notMem_of_blank {c : Char} (hc : isBlank c = false) (blanks : Blanks) : c ∉ blanks.1 := by
  intro h
  rw [blanks.2 c h] at hc
  cases hc

theorem isTrimmed_of_forall {cs : List Char} (h : ∀ c ∈ cs, isBlank c = false) : IsTrimmed cs :=
  ⟨fun c hc => h c (List.mem_of_mem_head? hc), fun c hc => h c (List.mem_of_getLast? hc)⟩

theorem isBlank_of_mem_keyMarks {c : Char} (h : c ∈ keyMarks) : isBlank c = false := by
  have hall : keyMarks.all (!isBlank ·) = true := by decide
  simpa using List.all_eq_true.mp hall c h

/-- A key has no blank and none of the marks that end it. -/
theorem notMem_of_isKey {key : String} (h : isKey key = true) :
    key.toList ≠ [] ∧ (∀ c ∈ key.toList, isBlank c = false) ∧ ',' ∉ key.toList ∧
      '=' ∉ key.toList := by
  simp only [isKey, Bool.and_eq_true, List.all_eq_true] at h
  obtain ⟨⟨hne, -⟩, hchars⟩ := h
  refine ⟨?_, fun c hc => ?_, fun hc => ?_, fun hc => ?_⟩
  · simpa using hne
  · rcases Bool.or_eq_true_iff.mp (hchars c hc) with halpha | hmark
    · exact Text.isBlank_of_isAlphanum halpha
    · exact isBlank_of_mem_keyMarks (List.contains_iff_mem.mp hmark)
  · exact absurd (hchars _ hc) (by decide)
  · exact absurd (hchars _ hc) (by decide)

theorem symbol_table : ∀ v < 64,
    isBlank (Text.Base64.symbol v) = false ∧ Text.Base64.symbol v ≠ ',' ∧
      (Text.Base64.symbol v).toNat < 128 := by
  decide +kernel

/-- Bytes are written without blanks and commas. -/
theorem of_mem_encode {c : Char} {bytes : List UInt8} (h : c ∈ Text.Base64.encode bytes) :
    isBlank c = false ∧ c ≠ ',' ∧ c.toNat < 128 := by
  rcases Text.Base64.eq_pad_or_symbol h with rfl | ⟨v, rfl⟩
  · decide
  · rw [← Text.Base64.symbol_mod]
    exact symbol_table (v % 64) (Nat.mod_lt v (by decide))

section
variable {key : String} {value : MetadataValue}

theorem comma_notMem_written (h : value.Fits key) : ',' ∉ value.written := by
  cases value with
  | text s => exact h.2.2.1
  | bytes b => exact fun hc => (of_mem_encode hc).2.1 rfl

theorem isTrimmed_written (h : value.Fits key) : IsTrimmed value.written := by
  cases value with
  | text s => exact h.2.2.2
  | bytes b => exact isTrimmed_of_forall fun c hc => (of_mem_encode hc).1

theorem encode_ofList {cs : List Char} (h : ∀ c ∈ cs, c.toNat < 128) :
    Text.Utf8.encode (String.ofList cs) = Text.Base64.ascii cs := by
  have hone : ∀ c ∈ cs, String.utf8EncodeChar c = [UInt8.ofNat c.toNat] := fun c hc =>
    if_pos (Nat.le_of_lt_succ (h c hc))
  rw [encode_eq, String.toByteArray_ofList, List.utf8Encode, List.data_toByteArray,
    List.toList_toArray, List.flatMap_congr hone, Text.Base64.ascii, List.map_eq_flatMap]

theorem metadataEntry?_written (hkey : isKey key = true) (hlower : key.toLower = key)
    (hvalue : value.Fits key) :
    metadataEntry? key (String.ofList value.written) = .ok (key, value) := by
  unfold metadataEntry?
  dsimp only
  rw [hlower]
  cases value with
  | text s =>
    obtain ⟨htext, hlegal, -⟩ := hvalue
    rw [MetadataValue.written, String.ofList_toList]
    simp [htext, hkey, hlegal]
  | bytes b =>
    have hbinary : isBinaryKey key = true := hvalue
    rw [MetadataValue.written, encode_ofList fun c hc => (of_mem_encode hc).2.2,
      Text.Base64.decode_encode]
    simp [hbinary, hkey]

/-- Blanks are trimmed away, and the key ends at the first equals sign. -/
theorem entry?_header (hkey : isKey key = true) (hvalue : value.Fits key) (margins : Margins) :
    entry? (Piece.header key value margins).written = some (key, String.ofList value.written) := by
  obtain ⟨hne, hblank, -, hequals⟩ := notMem_of_isKey hkey
  have hbefore : '=' ∉ margins.beforeKey.1 ++ (key.toList ++ margins.afterKey.1) := by
    simp only [List.mem_append, not_or]
    exact ⟨notMem_of_blank (by decide) _, hequals, notMem_of_blank (by decide) _⟩
  have htrim := Text.trimChars_append (isTrimmed_of_forall hblank) margins.beforeKey.2
    margins.afterKey.2
  have hvaluetrim := Text.trimChars_append (isTrimmed_written hvalue) margins.beforeValue.2
    margins.afterValue.2
  rw [Piece.written, entry?, Text.cut_append_sep '=' hbefore]
  dsimp only
  rw [htrim, hvaluetrim]
  cases hcs : key.toList with
  | nil => exact absurd hcs hne
  | cons c rest =>
    dsimp only
    rw [← hcs, String.ofList_toList]

end

def asHeader (entry : String × MetadataValue) : String × String :=
  (entry.1, String.ofList entry.2.written)

section
variable {piece : Piece} {pieces : List Piece}

theorem comma_notMem_piece (h : ∀ entry ∈ piece.carried?, IsWritable entry) :
    ',' ∉ piece.written := by
  have hblank (blanks : Blanks) : ',' ∉ blanks.1 := notMem_of_blank (by decide) blanks
  cases piece with
  | header key value margins =>
    have hentry : IsWritable (key, value) := h _ rfl
    have hkey := (notMem_of_isKey hentry.key).2.2.1
    have hvalue := comma_notMem_written hentry.value
    simp [Piece.written, hblank, hkey, hvalue]
  | plain cs hcomma _ => exact hcomma
  | keyless key value hcomma => simp [Piece.written, hblank, hcomma]

/-- A piece without equals sign or key is no entry. -/
theorem entry?_written (h : ∀ entry ∈ piece.carried?, IsWritable entry) :
    entry? piece.written = piece.carried?.map asHeader := by
  cases piece with
  | header key value margins =>
    have hentry : IsWritable (key, value) := h _ rfl
    exact entry?_header hentry.key hentry.value margins
  | plain cs _ hequals =>
    rw [Piece.written, entry?, (Text.cut_eq_none_iff '=').mpr hequals]
    rfl
  | keyless key value _ =>
    rw [Piece.written, entry?, Text.cut_append_sep '=' (notMem_of_blank (by decide) key)]
    dsimp only
    rw [Text.trimChars_eq_nil key.2]
    rfl

theorem entries_text (h : ∀ entry ∈ pieces.filterMap Piece.carried?, IsWritable entry) :
    entries (Piece.text pieces) = (pieces.filterMap Piece.carried?).map asHeader := by
  have hpiece : ∀ piece ∈ pieces, ∀ entry ∈ piece.carried?, IsWritable entry :=
    fun piece hpiece entry hentry => h entry (List.mem_filterMap.mpr ⟨piece, hpiece, hentry⟩)
  rw [entries, Piece.text, String.toList_ofList]
  rcases eq_or_ne pieces [] with rfl | hne
  · rfl
  · have hcomma : ∀ f ∈ pieces.map Piece.written, ',' ∉ f := by
      intro f hf
      obtain ⟨piece, hmem, rfl⟩ := List.mem_map.mp hf
      exact comma_notMem_piece (hpiece piece hmem)
    rw [Text.fields_joinFields (by simpa using hne) hcomma, List.filterMap_map,
      List.map_filterMap]
    exact List.filterMap_congr fun piece hmem => entry?_written (hpiece piece hmem)

end

theorem metadataOf?_asHeader (start : Metadata) {es : List (String × MetadataValue)}
    (h : ∀ entry ∈ es, IsWritable entry) :
    metadataOf? start (es.map asHeader) =
      .ok (es.foldl (fun metadata (key, value) => metadata.put key value) start) := by
  induction es generalizing start with
  | nil => rfl
  | cons entry rest ih =>
    obtain ⟨hentry, hrest⟩ := List.forall_mem_cons.mp h
    have hread : metadataEntry? (asHeader entry).1 (asHeader entry).2 = .ok (entry.1, entry.2) :=
      metadataEntry?_written hentry.key hentry.lower hentry.value
    rw [List.map_cons, metadataOf?_cons_of_ok hread, ih _ hrest, List.foldl_cons]

def fillWithin? (room : Nat) (metadata : Metadata) :
    List (String × String) → Option (Except MetadataFault Metadata)
  | [] => some (.ok metadata)
  | (key, value) :: rest =>
    match metadataEntry? key value with
    | .error fault => some (.error fault)
    | .ok (key, value) =>
      if metadata.size < room then fillWithin? room (metadata.put key value) rest else none

/-- The metadata of headers where no more than so many entries can be held: `none` if there is not
room for all headers from the beginning. -/
def metadataWithin? (room : Nat) (headers : List (String × String)) :
    Option (Except MetadataFault Metadata) :=
  if headers.length ≤ room then fillWithin? room .empty headers else none

theorem fillWithin?_eq {room : Nat} {headers : List (String × String)} {metadata : Metadata}
    (h : metadata.size + headers.length ≤ room) :
    fillWithin? room metadata headers = some (metadataOf? metadata headers) := by
  induction headers generalizing metadata with
  | nil => rfl
  | cons header rest ih =>
    rw [List.length_cons] at h
    rw [fillWithin?, metadataOf?]
    cases metadataEntry? header.1 header.2 with
    | error fault => rfl
    | ok entry =>
      have hput := metadata.size_put_le entry.1 entry.2
      dsimp only
      rw [if_pos (by omega), ih (by omega)]

/-- The room does not matter once there is enough for all headers. -/
theorem metadataWithin?_eq (room : Nat) (headers : List (String × String)) :
    metadataWithin? room headers =
      if headers.length ≤ room then some (metadataOf? .empty headers) else none := by
  unfold metadataWithin?
  split
  · rename_i hroom
    exact fillWithin?_eq (by rwa [Table.size, Table.empty, List.length_nil, Nat.zero_add])
  · rfl

/-- Metadata that is written and read back is the same: in whatever order its entries are written,
with whatever blanks around keys and values and whatever else between commas that is no entry, and
in whatever order the headers are gone through.  So it is wherever there is room for its entries. -/
theorem exists_metadata_of_written {metadata : Metadata} {pieces : List Piece}
    (hkeys : metadata.keys.Nodup) (hwritable : ∀ entry ∈ metadata.entries, IsWritable entry)
    (hcarried : (pieces.filterMap Piece.carried?).Perm metadata.entries)
    {order : List (String × String)}
    (horder : order.Perm (Headers.ofText (Piece.text pieces)).entries) :
    ∃ read, metadataOf? .empty order = .ok read ∧ read.entries.Perm metadata.entries ∧
      ∀ room, metadata.size ≤ room → metadataWithin? room order = some (.ok read) := by
  have hcarriedWritable : ∀ entry ∈ pieces.filterMap Piece.carried?, IsWritable entry :=
    fun entry hentry => hwritable entry (hcarried.mem_iff.mp hentry)
  have hcarriedKeys : ((pieces.filterMap Piece.carried?).map Prod.fst).Nodup :=
    (hcarried.map Prod.fst).nodup_iff.mpr hkeys
  have hheaders : (Headers.ofText (Piece.text pieces)).entries =
      (pieces.filterMap Piece.carried?).map asHeader := by
    rw [Headers.ofText, entries_text hcarriedWritable, Table.entries_foldl_put]
    · rfl
    · simpa [Table.keys, Table.empty, Function.comp_def, asHeader] using hcarriedKeys
  rw [hheaders] at horder
  obtain ⟨es, rfl, hes⟩ : ∃ es : List (String × MetadataValue), order = es.map asHeader ∧
      es.Perm (pieces.filterMap Piece.carried?) := by
    have hcomp := congrFun (congrFun (List.eq_map_comp_perm asHeader) order)
      (pieces.filterMap Piece.carried?)
    exact hcomp.mpr horder
  have hmetadata := hes.trans hcarried
  have hread := metadataOf?_asHeader .empty fun entry hentry =>
    hwritable entry (hmetadata.mem_iff.mp hentry)
  refine ⟨_, hread, ?_, fun room hroom => ?_⟩
  · rw [Table.entries_foldl_put]
    · exact hmetadata
    · simpa [Table.keys, Table.empty] using (hmetadata.map Prod.fst).nodup_iff.mpr hkeys
  · have hlength : (es.map asHeader).length ≤ room := by
      rwa [List.length_map, hmetadata.length_eq]
    rw [metadataWithin?_eq, if_pos hlength, hread]

def traced : Metadata := ⟨[("trace-bin", .bytes [1, 2, 3, 251]), ("auth", .text "Basic dXNlcg==")]⟩

def tracedPieces : List Piece :=
  let none : Blanks := ⟨[], List.forall_mem_nil _⟩
  let one : Blanks := ⟨[' '], List.forall_mem_singleton.mpr (by decide)⟩
  let tab : Blanks := ⟨['\t'], List.forall_mem_singleton.mpr (by decide)⟩
  [.plain "off".toList (by decide) (by decide),
    .header "auth" (.text "Basic dXNlcg==") ⟨tab, one, one, none⟩,
    .keyless one "on".toList (by decide),
    .header "trace-bin" (.bytes [1, 2, 3, 251]) ⟨none, none, tab, one⟩]

theorem exists_metadata_of_traced :
    Piece.text tracedPieces = "off,\tauth = Basic dXNlcg==, =on,trace-bin=\tAQID+w== " ∧
      ∃ read, (Headers.ofText (Piece.text tracedPieces)).metadata? = .ok read ∧
        read.entries.Perm traced.entries ∧
        metadataWithin? 2 (Headers.ofText (Piece.text tracedPieces)).entries = some (.ok read) := by
  have hwritable : ∀ entry ∈ traced.entries, IsWritable entry := by decide +kernel
  have hcarried : (tracedPieces.filterMap Piece.carried?).Perm traced.entries := .swap _ _ _
  obtain ⟨read, hread, hperm, hroom⟩ :=
    exists_metadata_of_written (by decide +kernel) hwritable hcarried (.refl _)
  exact ⟨by decide +kernel, read, hread, hperm, hroom 2 (Nat.le_refl 2)⟩

end PgMetrics.Telemetry
