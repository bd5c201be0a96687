import XrayRs.Delimited
import XrayRs.Net
import XrayRs.PercentCoding
import XrayRs.Text

/-! # The paths of the gRPC tunnel

`path_escape`, `grpc_path_parts` and `path_matches` (`transport/src/grpc.rs`): which
request path a configured service name accepts.  Names and paths are taken as their
UTF-8 bytes, where an ASCII character is one byte and no part of another character.

`utf8_percent_encode` is a parameter that does what its crate documents
(`PercentEncodes`).  Two ordinary names never accept one path, and of a custom name the
path has the slashes that were written, and no others (`grpc_paths_apart`). -/

namespace XrayRs.Grpc

open PercentCoding

/-- `u8::is_ascii_alphanumeric`. -/
def isAsciiAlphanumeric (b : UInt8) : Bool :=
  (0x30 ≤ b && b ≤ 0x39) || (0x41 ≤ b && b ≤ 0x5a) || (0x61 ≤ b && b ≤ 0x7a)

/-- `NON_ALPHANUMERIC`, as a set of ASCII bytes to escape. -/
def nonAlphanumeric (b : UInt8) : Bool := !isAsciiAlphanumeric b

/-- `PATH_SEGMENT`: without `-_.~$&+:=@`. -/
def pathSegment (b : UInt8) : Bool :=
  nonAlphanumeric b && !List.contains [0x2d, 0x5f, 0x2e, 0x7e, 0x24, 0x26, 0x2b, 0x3a, 0x3d, 0x40] b

/-- What `utf8_percent_encode` documents: a byte of the set, and one that is not ASCII,
is spelled `%XX`; the others are copied. -/
def PercentEncodes (utf8PercentEncode : (UInt8 → Bool) → Bytes → Bytes) : Prop :=
  ∀ set s, utf8PercentEncode set s = percentEncode (fun b => b < 0x80 && !set b) s

section
variable (utf8PercentEncode : (UInt8 → Bool) → Bytes → Bytes)

/-- `path_escape`. -/
def pathEscape (s : Bytes) : Bytes := utf8PercentEncode pathSegment s

/-- `grpc_path_parts`. -/
def grpcPathParts (service : String) : Bytes × Bytes :=
  match asBytes service with
  | 0x2f :: after =>
    let (rawSvc, ending) := (Text.rsplitOnce 0x2f after).getD ([], after)
    let svc := [0x2f].intercalate ((rawSvc.splitOn 0x2f).map (pathEscape utf8PercentEncode))
    let tun := pathEscape utf8PercentEncode ((ending.splitOn 0x7c).head?.getD ending)
    (svc, tun)
  | service => (pathEscape utf8PercentEncode service, asBytes "Tun")

/-- `/{svc}/{tun}`. -/
def tunnelPath (parts : Bytes × Bytes) : Bytes := 0x2f :: (parts.1 ++ 0x2f :: parts.2)

/-- `path_matches`. -/
def pathMatches (path : Bytes) (service : String) : Bool :=
  path == tunnelPath (grpcPathParts utf8PercentEncode service)

end

/-! ## Splitting -/

section
variable {sep : UInt8} {s before after : Bytes}

/-- The parts of a text at a separator do not hold it. -/
theorem not_mem_of_mem_splitOn {part : Bytes} (h : part ∈ s.splitOn sep) : sep ∉ part := by
  induction s generalizing part with
  | nil =>
    rw [List.splitOn_nil, List.mem_singleton] at h
    rw [h]
    exact List.not_mem_nil
  | cons b s ih =>
    rw [List.splitOn_cons_eq_if_modifyHead] at h
    split at h
    · rcases List.mem_cons.mp h with rfl | h
      · exact List.not_mem_nil
      · exact ih h
    · next hb =>
      obtain ⟨first, parts, hsplit⟩ := List.exists_cons_of_ne_nil (List.splitOn_ne_nil sep s)
      rw [hsplit, List.modifyHead_cons, List.mem_cons] at h
      rcases h with rfl | h
      · refine List.not_mem_cons_of_ne_of_not_mem (fun heq => hb (by simp [heq])) (ih ?_)
        rw [hsplit]
        exact List.mem_cons_self ..
      · exact ih (hsplit ▸ List.mem_cons_of_mem _ h)

/-- The first part is what comes before the first separator. -/
theorem head_splitOn (s : Bytes) :
    (s.splitOn sep).head?.getD s = s.takeWhile (· ≠ sep) := by
  have h : (s.splitOn sep).head? = some (s.takeWhile (· ≠ sep)) := by
    induction s with
    | nil => rfl
    | cons b s ih =>
      rw [List.splitOn_cons_eq_if_modifyHead]
      by_cases hb : b = sep
      · simp [hb]
      · obtain ⟨first, parts, hsplit⟩ := List.exists_cons_of_ne_nil (List.splitOn_ne_nil sep s)
        rw [hsplit, List.head?_cons, Option.some.injEq] at ih
        rw [hsplit]
        simp [hb, ih]
  rw [h]
  rfl

/-- A joined text has the separators of the parts and one between any two. -/
theorem count_intercalate {parts : List Bytes} (h : ∀ part ∈ parts, sep ∉ part) :
    ([sep].intercalate parts).count sep = parts.length - 1 := by
  induction parts with
  | nil => rfl
  | cons part parts ih =>
    obtain ⟨hpart, hparts⟩ := List.forall_mem_cons.mp h
    cases parts with
    | nil => simp [List.count_eq_zero_of_not_mem hpart]
    | cons next parts =>
      rw [List.intercalate_cons_cons, List.count_append, List.count_append, ih hparts,
        List.count_eq_zero_of_not_mem hpart]
      simp
      omega

end

/-! ## Escaping -/

section
variable {encode : (UInt8 → Bool) → Bytes → Bytes} (hencode : PercentEncodes encode)
include hencode

theorem pathEscape_eq (s : Bytes) :
    pathEscape encode s = percentEncode (fun b => b < 0x80 && !pathSegment b) s :=
  hencode ..

theorem pathEscape_inj {s t : Bytes} (h : pathEscape encode s = pathEscape encode t) : s = t := by
  rw [pathEscape_eq hencode, pathEscape_eq hencode] at h
  exact percentEncode_inj (by decide) h

/-- **No slash arises from escaping.** -/
theorem slash_not_mem_pathEscape (s : Bytes) : 0x2f ∉ pathEscape encode s := by
  rw [pathEscape_eq hencode]
  exact not_mem_percentEncode (by decide) (by decide) (by decide) s

end

/-- The path of a custom name: its escaped segments, and the escaped method. -/
def customPath (encode : (UInt8 → Bool) → Bytes → Bytes) (segments : List Bytes) (last : Bytes) :
    Bytes :=
  0x2f :: ([0x2f].intercalate (segments.map (pathEscape encode)) ++
    0x2f :: pathEscape encode (last.takeWhile (· ≠ 0x7c)))

/-- The segments of what follows the slash of a custom name; a name without another slash
has an empty segment before it. -/
def SplitsPath (after : Bytes) (segments : List Bytes) (last : Bytes) : Prop :=
  (∀ segment ∈ segments, 0x2f ∉ segment) ∧ 0x2f ∉ last ∧
    (after = [0x2f].intercalate (segments ++ [last]) ∨ segments = [[]] ∧ after = last)

section
variable (encode : (UInt8 → Bool) → Bytes → Bytes)

theorem grpcPathParts_ordinary {s : String} (h : (asBytes s).head? ≠ some 0x2f) :
    grpcPathParts encode s = (pathEscape encode (asBytes s), asBytes "Tun") := by
  unfold grpcPathParts
  split
  · next after heq =>
    rw [heq] at h
    exact absurd rfl h
  · rfl

theorem tunnelPath_custom {service : String} {after : Bytes}
    (hservice : asBytes service = 0x2f :: after) :
    ∃ segments last, segments ≠ [] ∧ SplitsPath after segments last ∧
      tunnelPath (grpcPathParts encode service) = customPath encode segments last := by
  have hparts : ∀ segments last : Bytes, (Text.rsplitOnce 0x2f after).getD ([], after) =
      (segments, last) → tunnelPath (grpcPathParts encode service) =
        customPath encode (segments.splitOn 0x2f) last := by
    intro segments last hsplit
    unfold grpcPathParts
    rw [hservice]
    simp only [hsplit, head_splitOn]
    rfl
  cases hsplit : Text.rsplitOnce 0x2f after with
  | none =>
    refine ⟨[[]], after, List.cons_ne_nil _ _, ⟨?_, Text.rsplitOnce_eq_none hsplit, .inr ⟨rfl, rfl⟩⟩,
      hparts [] after (by rw [hsplit]; rfl)⟩
    intro segment hmem
    rw [List.mem_singleton.mp hmem]
    exact List.not_mem_nil
  | some parts =>
    obtain ⟨rawSvc, ending⟩ := parts
    obtain ⟨hending, hafter⟩ := Text.rsplitOnce_eq_some.mp hsplit
    refine ⟨rawSvc.splitOn 0x2f, ending, List.splitOn_ne_nil _ _, ⟨?_, hending, .inl ?_⟩,
      hparts rawSvc ending (by rw [hsplit]; rfl)⟩
    · exact fun segment hmem => not_mem_of_mem_splitOn hmem
    · rw [hafter, Delimited.intercalate_append _ (List.splitOn_ne_nil _ _)
        (List.cons_ne_nil ending []), List.intercalate_splitOn, List.intercalate_singleton]
      rfl

end

/-- The path of a custom name has the slashes of its construction: the first one, one
between any two segments, and the one before the method. -/
theorem count_customPath {encode : (UInt8 → Bool) → Bytes → Bytes}
    (hencode : PercentEncodes encode) {segments : List Bytes} (hne : segments ≠ [])
    (last : Bytes) : (customPath encode segments last).count 0x2f = segments.length + 1 := by
  have hlast := slash_not_mem_pathEscape hencode (last.takeWhile (· ≠ 0x7c))
  have hsegments : ∀ part ∈ segments.map (pathEscape encode), 0x2f ∉ part := by
    intro part hmem
    obtain ⟨segment, -, rfl⟩ := List.mem_map.mp hmem
    exact slash_not_mem_pathEscape hencode segment
  have hlength := List.length_pos_of_ne_nil hne
  rw [customPath, List.count_cons_self, List.count_append, count_intercalate hsegments,
    List.count_cons_self, List.count_eq_zero_of_not_mem hlast, List.length_map]
  omega

/-- **Service names do not alias**: of two ordinary names, one accepts the path of the
other only if they are one name; and a custom name accepts the path of its segments alone,
in which no slash comes from escaping. -/
theorem grpc_paths_apart {encode : (UInt8 → Bool) → Bytes → Bytes}
    (hencode : PercentEncodes encode) :
    (∀ s t : String, (asBytes s).head? ≠ some 0x2f → (asBytes t).head? ≠ some 0x2f →
      (pathMatches encode (tunnelPath (grpcPathParts encode s)) t = true ↔ s = t)) ∧
    ∀ (service : String) (after : Bytes), asBytes service = 0x2f :: after →
      ∃ segments last, segments ≠ [] ∧ SplitsPath after segments last ∧
        (∀ path, pathMatches encode path service = true ↔
          path = customPath encode segments last) ∧
        (customPath encode segments last).count 0x2f = segments.length + 1 := by
  constructor
  · intro s t hs ht
    rw [pathMatches, beq_iff_eq, grpcPathParts_ordinary encode hs, grpcPathParts_ordinary encode ht]
    constructor
    · intro h
      have hescaped := List.append_cancel_right (List.cons_eq_cons.mp h).2
      exact asBytes_inj.mp (pathEscape_inj hencode hescaped)
    · rintro rfl
      rfl
  · intro service after hservice
    obtain ⟨segments, last, hne, hsplits, hpath⟩ := tunnelPath_custom encode hservice
    refine ⟨segments, last, hne, hsplits, fun path => ?_, count_customPath hencode hne last⟩
    rw [pathMatches, beq_iff_eq, hpath]

theorem grpc_paths_apart_escaped :
    let encode := fun (set : UInt8 → Bool) => percentEncode (fun b => b < 0x80 && !set b)
    ¬pathMatches encode (tunnelPath (grpcPathParts encode "a/b")) "a%2Fb" = true ∧
      ∃ segments last, segments ≠ [] ∧ SplitsPath (asBytes "a/b|c") segments last ∧
        (customPath encode segments last).count 0x2f = segments.length + 1 := by
  have hencode : PercentEncodes fun set => percentEncode (fun b => b < 0x80 && !set b) :=
    fun _ _ => rfl
  obtain ⟨hordinary, hcustom⟩ := grpc_paths_apart hencode
  constructor
  · intro h
    exact absurd ((hordinary "a/b" "a%2Fb" (by decide) (by decide)).mp h) (by decide)
  · obtain ⟨segments, last, hne, hsplits, -, hcount⟩ :=
      hcustom "/a/b|c" (asBytes "a/b|c") (by decide)
    exact ⟨segments, last, hne, hsplits, hcount⟩

end XrayRs.Grpc
