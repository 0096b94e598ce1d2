import OCF.Foundations.XmlText
import OCF.Runtime.Command

/-!
# The XML of a domain

A virtual machine is defined by an XML document, into which the workload's id and image are put as
escaped text. The escaper replaces one special character after the other in the whole text; since
the ampersand comes first and no replacement brings in a character that is replaced later, this is
the replacement character by character (`xmlEscape_eq`). The document is then read as one tree, with
the id as the text of an element and the image as the value of an attribute, whatever they are
(`read_domainXml`).
-/

namespace OCF.Runtime

open OCF.Text Xml

/-! ## Escaping -/

theorem replaceChar_flatMap (c : Char) (t : List Char) (f : Char → List Char) (s : List Char) :
    replaceChar c t (s.flatMap f) = s.flatMap fun x => replaceChar c t (f x) := by
  rw [replaceChar, List.flatMap_assoc]
  rfl

theorem replaceChar_singleton {c x : Char} (h : x ≠ c) (t : List Char) :
    replaceChar c t [x] = [x] := by
  simp [replaceChar, h]

/-- The five replacements, one after the other, on a single character. -/
theorem replaced_singleton (x : Char) :
    replaceChar '\'' "&apos;".toList (replaceChar '"' "&quot;".toList (replaceChar '>' "&gt;".toList
      (replaceChar '<' "&lt;".toList (replaceChar '&' "&amp;".toList [x])))) = escapeChar x := by
  rcases escapeChar_cases x with ⟨e, he, rfl, heq⟩ | ⟨heq, hne⟩
  · rw [heq]
    simp only [entities, List.mem_cons, List.not_mem_nil, or_false] at he
    rcases he with rfl | rfl | rfl | rfl | rfl <;> decide
  · simp only [entities, List.mem_cons, List.not_mem_nil, or_false, forall_eq_or_imp,
      forall_eq] at hne
    obtain ⟨hamp, hlt, hgt, hquot, hapos⟩ := hne
    rw [heq, replaceChar_singleton hamp, replaceChar_singleton hlt, replaceChar_singleton hgt,
      replaceChar_singleton hquot, replaceChar_singleton hapos]

/-- Replacing one character after the other is replacing character by character. -/
theorem xmlEscape_eq (s : String) : (xmlEscape s).toList = escape s.toList := by
  have hs : s.toList = s.toList.flatMap fun x => [x] := by simp
  rw [xmlEscape, String.toList_ofList, escape, hs]
  simp only [replaceChar_flatMap, replaced_singleton]
  rw [← hs]

/-! ## The document -/

/-- What is read off the document of a workload. -/
def domainEvents (w : Workload) : List Event :=
  element "domain" [("type", "kvm")] <|
    element "name" [] (chars w.metadata.id.name) ++
    element "memory" [("unit", "KiB")]
      (chars (toString (max (w.resources.memoryBytes / 1024) (64 * 1024)))) ++
    element "vcpu" [] (chars (toString (vcpus w))) ++
    element "os" [] (element "type" [("arch", "x86_64")] (chars "hvm")) ++
    element "devices" []
      (element "disk" [("type", "file"), ("device", "disk")]
        (element "driver" [("name", "qemu"), ("type", "qcow2")] [] ++
          element "source" [("file", w.image)] [] ++
          element "target" [("dev", "vda"), ("bus", "virtio")] []))

theorem balanced_domainEvents (w : Workload) : Balanced (domainEvents w) := by
  refine .element _ _ (.append (.append (.append (.append ?_ ?_) ?_) ?_) ?_)
  · exact .element _ _ (.chars _)
  · exact .element _ _ (.chars _)
  · exact .element _ _ (.chars _)
  · exact .element _ _ (.element _ _ (.chars _))
  · refine .element _ _ (.element _ _ (.append (.append ?_ ?_) ?_))
    · exact .element _ _ .nil
    · exact .element _ _ .nil
    · exact .element _ _ .nil

theorem reads_xmlEscape (s : String) :
    Reads (.content none) (xmlEscape s).toList (.content none) (chars s) := by
  rw [xmlEscape_eq]
  exact .escape_content _

theorem reads_toString (n : ℕ) :
    Reads (.content none) (toString n).toList (.content none) (chars (toString n)) := by
  refine .digits_content fun c hc => ?_
  rw [Nat.toString_eq_repr, Nat.toList_repr] at hc
  exact Nat.isDigit_of_mem_toDigits (by decide) (by decide) hc

/-- The tag with the image. -/
theorem reads_source (image : String) :
    Reads (.value "source".toList [] "file".toList '\'' [] none)
      ((xmlEscape image).toList ++ "'/>".toList) (.content none)
      (element "source" [("file", image)] []) := by
  have hvalue : Reads (.value "source".toList [] "file".toList '\'' [] none) (escape image.toList)
      (.value "source".toList [] "file".toList '\'' image.toList none) [] :=
    .escape_value (.inr rfl) image.toList []
  rw [xmlEscape_eq]
  exact hvalue.append rfl

/-- The text between the number of cores and the image. -/
theorem reads_devices :
    Reads (.content none)
      ("</vcpu><os><type arch='x86_64'>hvm</type></os><devices><disk type='file' device='disk'>".toList
        ++ "<driver name='qemu' type='qcow2'/><source file='".toList)
      (.value "source".toList [] "file".toList '\'' [] none)
      (.finish "vcpu".toList :: element "os" [] (element "type" [("arch", "x86_64")] (chars "hvm")) ++
        [.start "devices".toList [],
          .start "disk".toList [("type".toList, "file".toList), ("device".toList, "disk".toList)]] ++
        element "driver" [("name", "qemu"), ("type", "qcow2")] []) := by
  unfold Reads
  decide +kernel

/-- The pieces of the document. -/
theorem toList_domainXml (w : Workload) : (domainXml w).toList =
    "<domain type='kvm'><name>".toList ++ ((xmlEscape w.metadata.id.name).toList ++
    ("</name><memory unit='KiB'>".toList ++
    ((toString (max (w.resources.memoryBytes / 1024) (64 * 1024))).toList ++
    ("</memory><vcpu>".toList ++
    ((toString (vcpus w)).toList ++
    (("</vcpu><os><type arch='x86_64'>hvm</type></os><devices><disk type='file' device='disk'>".toList
        ++ "<driver name='qemu' type='qcow2'/><source file='".toList) ++
    (((xmlEscape w.image).toList ++ "'/>".toList) ++
    "<target dev='vda' bus='virtio'/></disk></devices></domain>".toList))))))) := by
  have hsplit : "'/><target dev='vda' bus='virtio'/></disk></devices></domain>".toList =
      "'/>".toList ++ "<target dev='vda' bus='virtio'/></disk></devices></domain>".toList := by
    decide +kernel
  unfold domainXml
  simp only [String.toList_append]
  rw [hsplit]
  simp only [List.append_assoc]

/-- **The document is read as one tree.** -/
theorem read_domainXml (w : Workload) : read (domainXml w).toList = some (domainEvents w) := by
  have hopen : Reads (.content none) "<domain type='kvm'><name>".toList (.content none)
      [.start "domain".toList [("type".toList, "kvm".toList)], .start "name".toList []] := by
    unfold Reads
    decide +kernel
  have hmemory : Reads (.content none) "</name><memory unit='KiB'>".toList (.content none)
      [.finish "name".toList, .start "memory".toList [("unit".toList, "KiB".toList)]] := by
    unfold Reads
    decide +kernel
  have hvcpu : Reads (.content none) "</memory><vcpu>".toList (.content none)
      [.finish "memory".toList, .start "vcpu".toList []] := by
    unfold Reads
    decide +kernel
  have hclose : Reads (.content none)
      "<target dev='vda' bus='virtio'/></disk></devices></domain>".toList (.content none)
      (element "target" [("dev", "vda"), ("bus", "virtio")] [] ++
        [.finish "disk".toList, .finish "devices".toList, .finish "domain".toList]) := by
    unfold Reads
    decide +kernel
  have hreads := hopen.append <| (reads_xmlEscape w.metadata.id.name).append <| hmemory.append <|
    (reads_toString (max (w.resources.memoryBytes / 1024) (64 * 1024))).append <| hvcpu.append <|
    (reads_toString (vcpus w)).append <|
    reads_devices.append <| (reads_source w.image).append hclose
  refine Reads.read_eq ?_ (balanced_domainEvents w)
  rw [toList_domainXml]
  simp only [element, List.append_assoc, List.cons_append, List.nil_append, List.map_nil,
    List.map_cons] at hreads
  simp only [domainEvents, element, List.append_assoc, List.cons_append, List.nil_append,
    List.map_nil, List.map_cons]
  exact hreads

/-- The tags of every document: the elements that begin and end, and the attributes they have. -/
def domainTags : List Tag :=
  [.start "domain".toList ["type".toList], .start "name".toList [], .finish "name".toList,
    .start "memory".toList ["unit".toList], .finish "memory".toList, .start "vcpu".toList [],
    .finish "vcpu".toList, .start "os".toList [], .start "type".toList ["arch".toList],
    .finish "type".toList, .finish "os".toList, .start "devices".toList [],
    .start "disk".toList ["type".toList, "device".toList],
    .start "driver".toList ["name".toList, "type".toList], .finish "driver".toList,
    .start "source".toList ["file".toList], .finish "source".toList,
    .start "target".toList ["dev".toList, "bus".toList], .finish "target".toList,
    .finish "disk".toList, .finish "devices".toList, .finish "domain".toList]

theorem tags_domainEvents (w : Workload) : tags (domainEvents w) = domainTags := by
  simp only [domainEvents, domainTags, tags_element, tags_append, tags_chars, tags_nil,
    List.nil_append, List.cons_append, List.append_assoc, List.map_nil, List.map_cons]

/-- **Nothing gets out of its place.** Escaping is replacing character by character, it is undone by
replacing the references, and it leaves no angle bracket and no quote. The document of every workload
has the same tags, with the id as the text of the name and the image as the file of the source. -/
theorem domainXml_escaped :
    (∀ s, (xmlEscape s).toList = escape s.toList) ∧
    (∀ s, unescape (xmlEscape s).toList = some s.toList) ∧
    (∀ s, '<' ∉ (xmlEscape s).toList ∧ '>' ∉ (xmlEscape s).toList ∧ '"' ∉ (xmlEscape s).toList ∧
      '\'' ∉ (xmlEscape s).toList) ∧
    ∀ w, read (domainXml w).toList = some (domainEvents w) ∧ tags (domainEvents w) = domainTags := by
  refine ⟨xmlEscape_eq, fun s => ?_, fun s => ?_, fun w => ⟨read_domainXml w, tags_domainEvents w⟩⟩
  · rw [xmlEscape_eq, unescape_escape]
  · rw [xmlEscape_eq]
    exact ⟨fun h => (ne_of_mem_escape h).1 rfl, fun h => (ne_of_mem_escape h).2.1 rfl,
      fun h => (ne_of_mem_escape h).2.2.1 rfl, fun h => (ne_of_mem_escape h).2.2.2 rfl⟩

end OCF.Runtime
