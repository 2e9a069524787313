import Mathlib.Data.List.Perm.Basic
import PgMetrics.Proofs.Text.Base64
import PgMetrics.Telemetry.Metadata

/-! # Metadata and the order of headers

Whether headers become metadata does not depend on the order in which they are gone through, but the
metadata may: of two headers whose keys agree in lower case the later one counts.  So all orders
come to the same just if such headers have the same value, or if they come to nothing at all.
-/
namespace PgMetrics.Telemetry

theorem toList_loop (bytes : ByteArray) (i : Nat) (read : List UInt8) :
    ByteArray.toList.loop bytes i read = read.reverse ++ bytes.data.toList.drop i := by
  induction i, read using ByteArray.toList.loop.induct bytes with
  | case1 i read hlt ih =>
    have hget : bytes.get! i = bytes.data.toList[i] := by
      rw [Array.getElem_toList]
      exact getElem!_pos bytes.data i hlt
    rw [ByteArray.toList.loop, if_pos hlt, ih, List.reverse_cons, List.append_assoc, hget,
      List.singleton_append, ← List.drop_eq_getElem_cons]
  | case2 i read hge =>
    rw [ByteArray.toList.loop, if_neg hge, List.drop_eq_nil_of_le (by simpa using hge),
      List.append_nil]

theorem encode_eq (s : String) : Text.Utf8.encode s = s.toByteArray.data.toList :=
  toList_loop s.toByteArray 0 []

theorem encode_inj {s t : String} (h : Text.Utf8.encode s = Text.Utf8.encode t) : s = t := by
  rw [encode_eq, encode_eq] at h
  exact String.toByteArray_inj.mp (ByteArray.ext (Array.toList_inj.mp h))

/-- The key of the metadata tells which values are bytes, and the value of the header is found from
the value of the metadata. -/
theorem metadataEntry?_spec {key value name : String} {x : MetadataValue}
    (h : metadataEntry? key value = .ok (name, x)) :
    name = key.toLower ∧
      (isBinaryKey name = true ∧
        (∃ bytes, Text.Base64.decode (Text.Utf8.encode value) = .ok bytes ∧ x = .bytes bytes) ∨
      isBinaryKey name = false ∧ x = .text value) := by
  unfold metadataEntry? at h
  dsimp only at h
  split at h
  · next hbinary =>
    split at h
    · cases h
    next bytes hdecode =>
    split at h
    · cases h
      exact ⟨rfl, .inl ⟨hbinary, bytes, hdecode, rfl⟩⟩
    · cases h
  · next htext =>
    split at h
    · cases h
    split at h
    · cases h
      exact ⟨rfl, .inr ⟨Bool.eq_false_iff.mpr htext, rfl⟩⟩
    · cases h

theorem value_eq_of_metadataEntry? {first second value other name : String} {x : MetadataValue}
    (hfirst : metadataEntry? first value = .ok (name, x))
    (hsecond : metadataEntry? second other = .ok (name, x)) : value = other := by
  obtain ⟨-, hvalue⟩ := metadataEntry?_spec hfirst
  obtain ⟨-, hother⟩ := metadataEntry?_spec hsecond
  rcases hvalue with ⟨hbinary, bytes, hbytes, rfl⟩ | ⟨htext, rfl⟩
  · rcases hother with ⟨-, same, hsame, heq⟩ | ⟨-, heq⟩
    · cases heq
      exact encode_inj (Text.Base64.eq_of_decode hbytes hsame)
    · cases heq
  · rcases hother with ⟨hbinary, -⟩ | ⟨-, heq⟩
    · rw [htext] at hbinary
      cases hbinary
    · cases heq
      rfl

/-- Headers come to the same entry if their keys agree in lower case and they have one value. -/
theorem metadataEntry?_congr {first second : String} (h : first.toLower = second.toLower)
    (value : String) : metadataEntry? first value = metadataEntry? second value := by
  unfold metadataEntry?
  rw [h]

def AllSound (headers : List (String × String)) : Prop :=
  ∀ header ∈ headers, ∃ entry, metadataEntry? header.1 header.2 = .ok entry

section
variable {start metadata : Metadata} {headers : List (String × String)}
variable {header : String × String} {name : String} {x : MetadataValue}

theorem metadataOf?_cons_of_ok (h : metadataEntry? header.1 header.2 = .ok (name, x)) :
    metadataOf? start (header :: headers) = metadataOf? (start.put name x) headers := by
  rw [metadataOf?, h]

theorem metadataOf?_cons_of_error {fault : MetadataFault}
    (h : metadataEntry? header.1 header.2 = .error fault) :
    metadataOf? start (header :: headers) = .error fault := by
  rw [metadataOf?, h]

theorem exists_metadata_iff :
    (∃ metadata, metadataOf? start headers = .ok metadata) ↔ AllSound headers := by
  unfold AllSound
  induction headers generalizing start with
  | nil => exact ⟨fun _ => List.forall_mem_nil _, fun _ => ⟨start, rfl⟩⟩
  | cons header rest ih =>
    rw [List.forall_mem_cons]
    cases hentry : metadataEntry? header.1 header.2 with
    | error fault =>
      rw [metadataOf?_cons_of_error hentry]
      simp
    | ok entry =>
      rw [metadataOf?_cons_of_ok hentry, ih]
      simp

theorem metadataOf?_concat (h : metadataOf? start headers = .ok metadata)
    (hentry : metadataEntry? header.1 header.2 = .ok (name, x)) :
    metadataOf? start (headers ++ [header]) = .ok (metadata.put name x) := by
  induction headers generalizing start with
  | nil =>
    cases h
    rw [List.nil_append, metadataOf?_cons_of_ok hentry]
    rfl
  | cons first rest ih =>
    cases hfirst : metadataEntry? first.1 first.2 with
    | error fault =>
      rw [metadataOf?_cons_of_error hfirst] at h
      cases h
    | ok entry =>
      rw [metadataOf?_cons_of_ok hfirst] at h
      rw [List.cons_append, metadataOf?_cons_of_ok hfirst]
      exact ih h

/-- A value comes from a header of that key, or was there at the start and no header has the key. -/
theorem get?_of_metadataOf? (h : metadataOf? start headers = .ok metadata) (key : String) :
    (∃ header ∈ headers, ∃ x, metadataEntry? header.1 header.2 = .ok (key, x) ∧
      metadata.get? key = some x) ∨
    (∀ header ∈ headers, ∀ x, metadataEntry? header.1 header.2 ≠ .ok (key, x)) ∧
      metadata.get? key = start.get? key := by
  induction headers generalizing start with
  | nil =>
    cases h
    exact .inr ⟨List.forall_mem_nil _, rfl⟩
  | cons header rest ih =>
    cases hentry : metadataEntry? header.1 header.2 with
    | error fault =>
      rw [metadataOf?_cons_of_error hentry] at h
      cases h
    | ok entry =>
      obtain ⟨name, y⟩ := entry
      rw [metadataOf?_cons_of_ok hentry] at h
      obtain ⟨later, hlater, x, hx, hget⟩ | ⟨hrest, hget⟩ := ih h
      · exact .inl ⟨later, List.mem_cons_of_mem _ hlater, x, hx, hget⟩
      · by_cases hname : name = key
        · subst hname
          refine .inl ⟨header, List.mem_cons_self, y, hentry, ?_⟩
          rw [hget, Table.get?_put_self]
        · refine .inr ⟨List.forall_mem_cons.mpr ⟨?_, hrest⟩, ?_⟩
          · intro x heq
            rw [hentry] at heq
            cases heq
            exact hname rfl
          · rw [hget, Table.get?_put_of_ne start y (Ne.symm hname)]

end

inductive Alike : Except MetadataFault Metadata → Except MetadataFault Metadata → Prop where
  | fails (first second : MetadataFault) : Alike (.error first) (.error second)
  | holds {first second : Metadata} (h : ∀ key, first.get? key = second.get? key) :
      Alike (.ok first) (.ok second)

/-- Headers whose keys agree in lower case have one value. -/
def Uncontested (headers : List (String × String)) : Prop :=
  ∀ first ∈ headers, ∀ second ∈ headers, first.1.toLower = second.1.toLower → first.2 = second.2

/-- All orders of the headers come to the same. -/
def OrderFree (headers : List (String × String)) : Prop :=
  ∀ first second, first.Perm headers → second.Perm headers →
    Alike (metadataOf? .empty first) (metadataOf? .empty second)

section
variable {headers : List (String × String)}

theorem AllSound.of_perm {order : List (String × String)} (h : AllSound headers)
    (hperm : order.Perm headers) : AllSound order :=
  fun header hheader => h header (hperm.mem_iff.mp hheader)

/-- Of headers that agree up to case it does not matter which one comes last. -/
theorem get?_eq_of_uncontested (h : Uncontested headers) {first second : List (String × String)}
    (hfirst : first.Perm headers) (hsecond : second.Perm headers) {m n : Metadata}
    (hm : metadataOf? .empty first = .ok m) (hn : metadataOf? .empty second = .ok n)
    (key : String) : m.get? key = n.get? key := by
  rcases get?_of_metadataOf? hm key with ⟨a, ha, x, hx, hmget⟩ | ⟨hnone, hmget⟩
  · rcases get?_of_metadataOf? hn key with ⟨b, hb, y, hy, hnget⟩ | ⟨hnone, -⟩
    · have hkeys : a.1.toLower = b.1.toLower :=
        (metadataEntry?_spec hx).1.symm.trans (metadataEntry?_spec hy).1
      have hvalue : a.2 = b.2 := h a (hfirst.mem_iff.mp ha) b (hsecond.mem_iff.mp hb) hkeys
      rw [metadataEntry?_congr hkeys, hvalue, hy] at hx
      cases hx
      rw [hmget, hnget]
    · exact absurd hx (hnone a (hsecond.mem_iff.mpr (hfirst.mem_iff.mp ha)) x)
  · rcases get?_of_metadataOf? hn key with ⟨b, hb, y, hy, -⟩ | ⟨-, hnget⟩
    · exact absurd hy (hnone b (hfirst.mem_iff.mpr (hsecond.mem_iff.mp hb)) y)
    · rw [hmget, hnget]

theorem orderFree_of_uncontested (h : Uncontested headers) (hsound : AllSound headers) :
    OrderFree headers := by
  intro first second hfirst hsecond
  obtain ⟨m, hm⟩ : ∃ m, metadataOf? .empty first = .ok m :=
    exists_metadata_iff.mpr (hsound.of_perm hfirst)
  obtain ⟨n, hn⟩ : ∃ n, metadataOf? .empty second = .ok n :=
    exists_metadata_iff.mpr (hsound.of_perm hsecond)
  rw [hm, hn]
  exact .holds (get?_eq_of_uncontested h hfirst hsecond hm hn)

theorem exists_fault (h : ¬ AllSound headers) :
    ∃ fault, metadataOf? .empty headers = .error fault := by
  cases houtcome : metadataOf? .empty headers with
  | error fault => exact ⟨fault, rfl⟩
  | ok m => exact absurd (exists_metadata_iff.mp ⟨m, houtcome⟩) h

theorem orderFree_of_not_allSound (h : ¬ AllSound headers) : OrderFree headers := by
  intro first second hfirst hsecond
  obtain ⟨f, hf⟩ := exists_fault fun hsound => h (hsound.of_perm hfirst.symm)
  obtain ⟨g, hg⟩ := exists_fault fun hsound => h (hsound.of_perm hsecond.symm)
  rw [hf, hg]
  exact .fails f g

/-- Any header can be the last one, and then its value counts. -/
theorem exists_order_of_mem (hsound : AllSound headers) {header : String × String}
    (hheader : header ∈ headers) :
    ∃ order, order.Perm headers ∧ ∃ m x, metadataOf? .empty order = .ok m ∧
      metadataEntry? header.1 header.2 = .ok (header.1.toLower, x) ∧
      m.get? header.1.toLower = some x := by
  obtain ⟨before, after, rfl⟩ := List.append_of_mem hheader
  have hperm : (before ++ after ++ [header]).Perm (before ++ header :: after) :=
    (List.perm_append_singleton header (before ++ after)).trans List.perm_middle.symm
  have hothers : AllSound (before ++ after) := fun other hother =>
    hsound other (List.mem_append.mpr <|
      (List.mem_append.mp hother).imp_right (List.mem_cons_of_mem _))
  obtain ⟨m, hm⟩ : ∃ m, metadataOf? .empty (before ++ after) = .ok m :=
    exists_metadata_iff.mpr hothers
  obtain ⟨⟨name, x⟩, hx⟩ := hsound header hheader
  obtain ⟨rfl, -⟩ := metadataEntry?_spec hx
  exact ⟨_, hperm, _, x, metadataOf?_concat hm hx, hx, Table.get?_put_self m _ x⟩

theorem uncontested_of_orderFree (h : OrderFree headers) (hsound : AllSound headers) :
    Uncontested headers := by
  intro first hfirst second hsecond hkeys
  obtain ⟨order, hperm, m, x, hm, hx, hmget⟩ := exists_order_of_mem hsound hfirst
  obtain ⟨other, hother, n, y, hn, hy, hnget⟩ := exists_order_of_mem hsound hsecond
  have halike := h order other hperm hother
  rw [hm, hn] at halike
  cases halike with
  | holds hget =>
    rw [hkeys] at hx hmget
    rw [hget, hnget] at hmget
    cases hmget
    exact value_eq_of_metadataEntry? hx hy

end

/-- No order fails unless all do, and all orders come to the same metadata just if headers whose
keys agree in lower case have one value. -/
theorem orderFree_iff (headers : Headers) :
    (∀ order, order.Perm headers.entries →
      ((∃ metadata, metadataOf? .empty order = .ok metadata) ↔ AllSound headers.entries)) ∧
    (OrderFree headers.entries ↔ (AllSound headers.entries → Uncontested headers.entries)) := by
  refine ⟨fun order hperm => ?_, uncontested_of_orderFree, fun h => ?_⟩
  · rw [exists_metadata_iff]
    exact ⟨fun h => h.of_perm hperm.symm, fun h => h.of_perm hperm⟩
  · by_cases hsound : AllSound headers.entries
    · exact orderFree_of_uncontested (h hsound) hsound
    · exact orderFree_of_not_allSound hsound

/-- Two spellings of one key leave it to the order which value is sent. -/
theorem spellings_not_orderFree : ¬ ∀ raw, OrderFree (Headers.ofText raw).entries := by
  intro h
  have hentries : (Headers.ofText "Tenant=a,tenant=b").entries =
      [("Tenant", "a"), ("tenant", "b")] := by decide +kernel
  have hupper : metadataEntry? "Tenant" "a" = .ok ("tenant", .text "a") := by decide +kernel
  have hlower : metadataEntry? "tenant" "b" = .ok ("tenant", .text "b") := by decide +kernel
  have hlate : metadataOf? .empty [("Tenant", "a"), ("tenant", "b")] =
      .ok ⟨[("tenant", .text "b")]⟩ := by
    simp only [metadataOf?, hupper, hlower]
    rfl
  have hearly : metadataOf? .empty [("tenant", "b"), ("Tenant", "a")] =
      .ok ⟨[("tenant", .text "a")]⟩ := by
    simp only [metadataOf?, hupper, hlower]
    rfl
  have halike := h "Tenant=a,tenant=b" [("Tenant", "a"), ("tenant", "b")]
    [("tenant", "b"), ("Tenant", "a")]
  rw [hentries, hlate, hearly] at halike
  cases halike (.refl _) (.swap _ _ _) with
  | holds hget => exact absurd (hget "tenant") (by decide)

end PgMetrics.Telemetry
