import CertificateJobs.Controller.JobBuilder
import CertificateJobs.Library.Framed

namespace CertificateJobs

def isDNS1123Alphanumeric (c : Char) : Bool := ('a' ≤ c && c ≤ 'z') || ('0' ≤ c && c ≤ '9')

def isDNS1123Rune (c : Char) : Bool := isDNS1123Alphanumeric c || c = '-'

structure IsDNS1123Label (text : String) : Prop where
  nonempty : text ≠ ""
  short : text.length ≤ 63
  framed : Framed isDNS1123Alphanumeric isDNS1123Rune text.toList

theorem dnsRune_allowed (c : Char) : isDNS1123Rune (dnsRune c) = true := by
  unfold dnsRune
  split
  · rename_i allowed
    simpa [isDNS1123Rune, isDNS1123Alphanumeric, or_assoc] using allowed
  · rfl

theorem isDNS1123Alphanumeric_ne_dash {c : Char} (plain : isDNS1123Alphanumeric c = true) : c ≠ '-' := by
  rintro rfl
  revert plain
  decide

theorem trimDashes_sublist (text : List Char) : (trimDashes text).Sublist text := by
  have back := List.dropWhile_sublist (l := (text.dropWhile (· = '-')).reverse) (· = '-')
  rw [← List.reverse_sublist, List.reverse_reverse] at back
  exact back.trans (List.dropWhile_sublist _)

theorem trimDashes_begins {start : List Char} (rest : List Char) (first : start.head? ≠ some '-')
    (last : start.getLast? ≠ some '-') (nonempty : start ≠ []) :
    start <+: trimDashes (start ++ rest) := by
  obtain ⟨before, b, rfl⟩ := List.eq_nil_or_concat start |>.resolve_left nonempty
  have ends : b ≠ '-' := by simpa using last
  have begins : (before.concat b ++ rest).dropWhile (· = '-') = before.concat b ++ rest := by
    cases before with
    | nil => simp [ends]
    | cons a tail =>
      have starts : a ≠ '-' := by simpa using first
      simp [starts]
  have back : (before.concat b).reverse.dropWhile (· = '-') = (before.concat b).reverse := by simp [ends]
  rw [trimDashes, begins, List.reverse_append, List.dropWhile_append]
  split
  · rw [back, List.reverse_reverse]
  · rw [List.reverse_append, List.reverse_reverse]
    exact List.prefix_append _ _

theorem head_dropWhile_dash (text : List Char) {c : Char} (first : c ∈ (text.dropWhile (· = '-')).head?) : c ≠ '-' := by
  have stopped := List.head?_dropWhile_not (fun c => decide (c = '-')) text
  rw [Option.mem_def.mp first] at stopped
  exact of_decide_eq_false stopped

theorem trimDashes_framed {text : List Char} (clean : ∀ c ∈ text, isDNS1123Rune c = true) :
    Framed isDNS1123Alphanumeric isDNS1123Rune (trimDashes text) := by
  have plain : ∀ c ∈ trimDashes text, c ≠ '-' → isDNS1123Alphanumeric c = true := by
    intro c member other
    simpa [isDNS1123Rune, other] using clean c ((trimDashes_sublist text).subset member)
  refine ⟨fun c member => clean c ((trimDashes_sublist text).subset member), ?_, ?_⟩
  · intro c first
    refine plain c (List.mem_of_mem_head? first) (head_dropWhile_dash text ?_)
    obtain ⟨rest, whole⟩ := List.head?_eq_some_iff.mp (Option.mem_def.mp first)
    -- the second trimming only cuts the end, so the first character is that of the first trimming
    have beginning : trimDashes text <+: text.dropWhile (· = '-') := by
      rw [trimDashes, ← List.reverse_suffix, List.reverse_reverse]
      exact List.dropWhile_suffix _
    obtain ⟨after, joined⟩ := beginning
    rw [← joined, whole]
    rfl
  · intro c final
    refine plain c (List.mem_of_mem_getLast? final) (head_dropWhile_dash (text.dropWhile (· = '-')).reverse ?_)
    rwa [trimDashes, List.getLast?_reverse] at final

theorem sanitizeDNS1123_framed (text : String) :
    Framed isDNS1123Alphanumeric isDNS1123Rune (sanitizeDNS1123 text).toList ∧ (sanitizeDNS1123 text).toList ≠ [] := by
  have clean : ∀ c ∈ text.toList.map (fun c => dnsRune (lowerRune c)), isDNS1123Rune c = true := by
    intro c member
    obtain ⟨original, -, rfl⟩ := List.mem_map.mp member
    exact dnsRune_allowed _
  simp only [sanitizeDNS1123]
  split
  · exact ⟨by decide, by decide⟩
  · rename_i filled
    rw [String.toList_ofList]
    exact ⟨trimDashes_framed clean, filled⟩

theorem sanitizeDNS1123_begins {start rest : List Char} (text : String) (split : text.toList = start ++ rest)
    (valid : start.map (fun c => dnsRune (lowerRune c)) = start) (first : start.head? ≠ some '-')
    (last : start.getLast? ≠ some '-') (nonempty : start ≠ []) : start <+: (sanitizeDNS1123 text).toList := by
  have kept := trimDashes_begins (rest.map fun c => dnsRune (lowerRune c)) first last nonempty
  rw [sanitizeDNS1123, split, List.map_append, valid, if_neg, String.toList_ofList]
  · exact kept
  · intro empty
    rw [empty, List.prefix_nil] at kept
    exact nonempty kept

def jobNameText (cjobName certName nodeName runID : String) : String :=
  cjobName ++ "/" ++ certName ++ "/" ++ nodeName ++ "/" ++ runID

def jobNameBase (cjobName certName nodeName runID : String) : String :=
  let base := sanitizeDNS1123 (cjobName ++ "-" ++ certName ++ "-" ++ nodeName ++ "-" ++ runID)
  if base.length > 50 then String.ofList (trimDashes (base.toList.take 50)) else base

theorem shortHash_length (text : String) : (shortHash (hashString text) 12).length = 12 := by
  have whole : (hashString text).length = 64 := Sha256.hexSum_length text
  rw [shortHash, if_neg (by omega), String.length_ofList, List.length_take, String.length_toList, whole]
  rfl

theorem shortHash_framed (text : String) :
    Framed isDNS1123Alphanumeric isDNS1123Rune (shortHash (hashString text) 12).toList := by
  have letters : ∀ c ∈ "0123456789abcdef".toList, isDNS1123Alphanumeric c = true := List.all_eq_true.mp rfl
  have digits : ∀ c ∈ (shortHash (hashString text) 12).toList, isDNS1123Alphanumeric c = true := by
    intro c member
    refine letters c ?_
    unfold shortHash at member
    split at member
    · exact Sha256.hexSum_digits text c member
    · rw [String.toList_ofList] at member
      exact Sha256.hexSum_digits text c (List.mem_of_mem_take member)
  exact ⟨fun c member => by simp [isDNS1123Rune, digits c member], fun c first => digits c (List.mem_of_mem_head? first),
    fun c final => digits c (List.mem_of_mem_getLast? final)⟩

section
variable (cjobName certName nodeName runID : String)

theorem jobNameBase_framed :
    Framed isDNS1123Alphanumeric isDNS1123Rune (jobNameBase cjobName certName nodeName runID).toList ∧
      (jobNameBase cjobName certName nodeName runID).toList ≠ [] := by
  obtain ⟨framed, nonempty⟩ := sanitizeDNS1123_framed (cjobName ++ "-" ++ certName ++ "-" ++ nodeName ++ "-" ++ runID)
  simp only [jobNameBase]
  generalize sanitizeDNS1123 (cjobName ++ "-" ++ certName ++ "-" ++ nodeName ++ "-" ++ runID) = base at framed nonempty
  split
  · rw [String.toList_ofList]
    refine ⟨trimDashes_framed fun c member => framed.inside c (List.mem_of_mem_take member), ?_⟩
    -- the cut keeps the first character, which is not a dash
    obtain ⟨first, rest, whole⟩ := List.exists_cons_of_ne_nil nonempty
    have plain := isDNS1123Alphanumeric_ne_dash (framed.head first (by rw [whole]; rfl))
    have kept : [first] <+: trimDashes ([first] ++ rest.take 49) :=
      trimDashes_begins _ (by simpa using plain) (by simpa using plain) (List.cons_ne_nil _ _)
    intro empty
    rw [whole, List.take_succ_cons] at empty
    rw [List.singleton_append, empty] at kept
    exact absurd (List.prefix_nil.mp kept) (List.cons_ne_nil _ _)
  · exact ⟨framed, nonempty⟩

theorem jobNameBase_length : (jobNameBase cjobName certName nodeName runID).length ≤ 50 := by
  simp only [jobNameBase]
  split
  · rw [String.length_ofList]
    exact (trimDashes_sublist _).length_le.trans (List.length_take_le _ _)
  · omega

theorem buildJobName_eq : buildJobName cjobName certName nodeName runID =
    jobNameBase cjobName certName nodeName runID ++ "-" ++
      shortHash (hashString (jobNameText cjobName certName nodeName runID)) 12 := by
  -- The name is never the fallback: sanitizing leaves something before the hash.
  have filled : jobNameBase cjobName certName nodeName runID ≠ "" := by
    intro empty
    exact (jobNameBase_framed cjobName certName nodeName runID).2 (by rw [empty]; rfl)
  have room : max (63 - (shortHash (hashString (jobNameText cjobName certName nodeName runID)) 12).length - 1) 1 = 50 := by
    rw [shortHash_length]
    rfl
  unfold buildJobName
  simp only [jobNameText, jobNameBase] at room filled ⊢
  rw [room, if_neg filled]

end

theorem append_right_cancel {p q s t : String} (same : p ++ s = q ++ t) (length : s.length = t.length) : s = t := by
  have lists := congrArg String.toList same
  rw [String.toList_append, String.toList_append] at lists
  have ends := (List.append_inj' lists (by rwa [String.length_toList, String.length_toList])).2
  exact String.toList_inj.mp ends

theorem buildJobName_suffix {cjobName certName node runID cjobName' certName' node' runID' : String}
    (same : buildJobName cjobName certName node runID = buildJobName cjobName' certName' node' runID') :
    shortHash (hashString (jobNameText cjobName certName node runID)) 12 =
      shortHash (hashString (jobNameText cjobName' certName' node' runID')) 12 := by
  rw [buildJobName_eq, buildJobName_eq] at same
  exact append_right_cancel same (by rw [shortHash_length, shortHash_length])

/-- The name of a Job begins as the text it is made of does, as far as this is plain and short. -/
theorem buildJobName_begins {cjobName certName node runID : String} {start rest : List Char}
    (text : (cjobName ++ "-" ++ certName ++ "-" ++ node ++ "-" ++ runID).toList = start ++ rest)
    (valid : start.map (fun c => dnsRune (lowerRune c)) = start) (first : start.head? ≠ some '-')
    (last : start.getLast? ≠ some '-') (nonempty : start ≠ []) (short : start.length ≤ 50) :
    start <+: (buildJobName cjobName certName node runID).toList := by
  obtain ⟨rest, whole⟩ := sanitizeDNS1123_begins _ text valid first last nonempty
  have base : start <+: (jobNameBase cjobName certName node runID).toList := by
    simp only [jobNameBase]
    split
    · rw [String.toList_ofList, ← whole, List.take_append, List.take_of_length_le (by simpa using short)]
      exact trimDashes_begins _ first last nonempty
    · exact ⟨rest, whole⟩
  refine base.trans ?_
  rw [buildJobName_eq, String.toList_append, String.toList_append, List.append_assoc]
  exact List.prefix_append _ _

/-- Whatever the names are made of, the Job gets a name that the API server accepts. -/
theorem buildJobName_valid (cjobName certName nodeName runID : String) :
    IsDNS1123Label (buildJobName cjobName certName nodeName runID) := by
  obtain ⟨framed, filled⟩ := jobNameBase_framed cjobName certName nodeName runID
  have short := jobNameBase_length cjobName certName nodeName runID
  have suffix := shortHash_framed (jobNameText cjobName certName nodeName runID)
  have suffixLength := shortHash_length (jobNameText cjobName certName nodeName runID)
  rw [buildJobName_eq]
  generalize jobNameBase cjobName certName nodeName runID = base at framed filled short
  generalize shortHash (hashString (jobNameText cjobName certName nodeName runID)) 12 = hash at suffix suffixLength
  have letters : (base ++ "-" ++ hash).toList = base.toList ++ '-' :: hash.toList := by simp
  have hashFilled : hash.toList ≠ [] := by
    intro empty
    rw [← String.length_toList, empty] at suffixLength
    cases suffixLength
  refine ⟨?_, ?_, ?_⟩
  · intro empty
    rw [empty] at letters
    simp at letters
  · rw [String.length_append, String.length_append, suffixLength]
    exact Nat.add_le_add_right (Nat.add_le_add_right short _) _
  · rw [letters]
    exact framed.append suffix filled hashFilled rfl

/-- The 12 characters of their SHA-256 sums that Job names keep tell the texts apart. -/
def CollisionFree (texts : List String) : Prop :=
  ∀ a ∈ texts, ∀ b ∈ texts, shortHash (hashString a) 12 = shortHash (hashString b) 12 → a = b

theorem jobNameText_toList (cjobName certName node runID : String) :
    (jobNameText cjobName certName node runID).toList =
      ['/'].intercalate ([cjobName, certName, node, runID].map String.toList) := by
  simp [jobNameText]

/-- Parts without a slash can be read back from the text. -/
theorem jobNameText_injective {cjobName certName node runID cjobName' certName' node' runID' : String}
    (plain : ∀ part ∈ [cjobName, certName, node, runID], '/' ∉ part.toList)
    (plain' : ∀ part ∈ [cjobName', certName', node', runID'], '/' ∉ part.toList)
    (same : jobNameText cjobName certName node runID = jobNameText cjobName' certName' node' runID') :
    (cjobName, certName, node, runID) = (cjobName', certName', node', runID') := by
  have split : ∀ parts : List String, (∀ part ∈ parts, '/' ∉ part.toList) → parts ≠ [] →
      (['/'].intercalate (parts.map String.toList)).splitOn '/' = parts.map String.toList := by
    intro parts plain nonempty
    refine List.splitOn_intercalate '/' ?_ (by simpa using nonempty)
    intro text member
    obtain ⟨part, inside, rfl⟩ := List.mem_map.mp member
    exact plain part inside
  have texts := congrArg String.toList same
  rw [jobNameText_toList, jobNameText_toList] at texts
  have lists := congrArg (List.splitOn '/') texts
  rw [split _ plain (List.cons_ne_nil _ _), split _ plain' (List.cons_ne_nil _ _)] at lists
  simpa [String.toList_inj] using lists

/-- Two Jobs have the same name only if they are for the same node in the same run, however much of the readable part
    is sanitized or cut away. -/
theorem buildJobName_injective (cjobName certName nodeName runID cjobName' certName' nodeName' runID' : String)
    (plain : ∀ part ∈ [cjobName, certName, nodeName, runID], '/' ∉ part.toList)
    (plain' : ∀ part ∈ [cjobName', certName', nodeName', runID'], '/' ∉ part.toList)
    (collisionFree : CollisionFree [jobNameText cjobName certName nodeName runID,
      jobNameText cjobName' certName' nodeName' runID']) :
    buildJobName cjobName certName nodeName runID = buildJobName cjobName' certName' nodeName' runID' ↔
      (cjobName, certName, nodeName, runID) = (cjobName', certName', nodeName', runID') := by
  constructor
  · intro same
    refine jobNameText_injective plain plain' (collisionFree _ ?_ _ ?_ (buildJobName_suffix same))
    · exact List.mem_cons_self
    · exact List.mem_cons_of_mem _ List.mem_cons_self
  · rintro ⟨⟩
    rfl

theorem buildJobName_injective_dashes :
    jobNameBase "a-b" "c" "node" "run" = jobNameBase "a" "b-c" "node" "run" ∧
      buildJobName "a-b" "c" "node" "run" ≠ buildJobName "a" "b-c" "node" "run" := by
  have collisionFree : CollisionFree [jobNameText "a-b" "c" "node" "run", jobNameText "a" "b-c" "node" "run"] := by
    unfold CollisionFree
    decide +kernel
  refine ⟨by decide, ?_⟩
  rw [Ne, buildJobName_injective "a-b" "c" "node" "run" "a" "b-c" "node" "run" (by decide) (by decide) collisionFree]
  decide

end CertificateJobs
