import OCF.Api.DirectoryLogin
import OCF.Fabric.Crypto
import OCF.Foundations.Ldap

/-!
# The groups of a directory user

After a bind the authenticator runs `ldapsearch` for the account with the name of the request and
takes the groups from the `memberOf:` lines that it prints. What the directory holds is a parameter:
its entries, the entry that a name binds, what a search finds, and the groups that the entries are
members of. What is printed for it is LDIF, with its folded lines and encoded values.

`groupsExact_iff` says when the groups of the identity are those of the entry that was bound, for
all memberships: the search has to find that entry alone, and every name of a group has to be short
and need neither an escape nor an encoding, up to coincidences that the statement spells out.
-/

namespace OCF.Auth

open Ldap

/-! ## Directories -/

/-- The name of a group: the value of its `CN` as it is written, and what comes after it. A value
does not end with a space that is not escaped. -/
structure GroupDn where
  cn : List NameChar
  parent : List Char
  cn_last : ∀ t ∈ cn.getLast?, t.isPlain → t.char ≠ ' '

namespace GroupDn

/-- What follows the first component of a distinguished name. -/
def tail (g : GroupDn) : List Char := if g.parent = [] then [] else ',' :: g.parent

/-- The distinguished name. -/
def text (g : GroupDn) : List Char := "CN=".toList ++ (nameText g.cn ++ g.tail)

/-- The leaf. -/
def name (g : GroupDn) : String := String.ofList (nameOf g.cn)

end GroupDn

/-- A value that is not safe is printed in base64. -/
def encodeValue (value : List Char) : List Char := Fabric.base64Chars (utf8 (String.ofList value))

/-- The lines that are printed for a member of the group. -/
def GroupDn.lines (g : GroupDn) : List (List Char) :=
  attributeLines encodeValue "memberOf".toList g.text

/-- A directory with entries `ι`: their names, the entry that a name binds, what a search finds
(nothing when the filter is rejected), by the name that is bound, the base and the filter; and its
groups. -/
structure Directory (ι : Type*) where
  dn : ι → List Char
  bound : String → ι
  search : String → String → String → Option (List ι)
  groups : Set GroupDn

namespace Directory

variable {ι : Type*} (dir : Directory ι) (memberOf : ι → List GroupDn)

/-- The lines that name an entry. -/
def dnLines (e : ι) : List (List Char) := attributeLines encodeValue "dn".toList (dir.dn e)

/-- The lines of an entry: its name, its groups, an empty line. -/
def entryLines (e : ι) : List (List Char) :=
  dir.dnLines e ++ ((memberOf e).flatMap GroupDn.lines ++ [[]])

/-- What `ldapsearch` prints for entries. -/
def ldif (es : List ι) : String := String.ofList (printed (es.flatMap (dir.entryLines memberOf)))

end Directory

/-- The arguments of a search for the groups of an account. -/
def searchArgs (uri bindDn password base filter : String) : List String :=
  ["-x", "-LLL", "-H", uri, "-D", bindDn, "-w", password, "-b", base, filter, "memberOf"]

/-- The tool prints what the directory finds, or fails when the filter is rejected. -/
structure Answers {ι : Type*} (tool : Tool) (dir : Directory ι) (memberOf : ι → List GroupDn)
    (uri bindDn password : String) : Prop where
  found : ∀ base filter es, dir.search bindDn base filter = some es → ∃ stderr,
    tool "ldapsearch" (searchArgs uri bindDn password base filter) =
      .ok (0, dir.ldif memberOf es, stderr)
  failed : ∀ base filter, dir.search bindDn base filter = none → ∃ code stdout stderr, code ≠ 0 ∧
    tool "ldapsearch" (searchArgs uri bindDn password base filter) = .ok (code, stdout, stderr)

namespace ActiveDirectoryAuthenticator

variable {ι : Type*} (ad : ActiveDirectoryAuthenticator) (dir : Directory ι) (username : String)

/-- Whoever the entries are members of, a user who has been bound gets the groups of the entry that
the name binds. -/
def GroupsExact : Prop :=
  ∀ (memberOf : ι → List GroupDn) (tool : Tool) (password stdout stderr : String),
    (∀ e, ∀ g ∈ memberOf e, g ∈ dir.groups) →
    Answers tool dir memberOf ad.ldapUri (ad.bindUpn username) password →
    runWithStdin tool "ldapwhoami" (bindArgs ad.ldapUri (ad.bindUpn username) password) =
      .ok (0, stdout, stderr) →
    ad.authenticate tool (.password username password) =
      .ok ⟨username, (memberOf (dir.bound (ad.bindUpn username))).map GroupDn.name⟩

/-- What the search for the groups finds, unless it cannot be passed to the tool. -/
def found : Option (List ι) :=
  if hasNul (searchArgs ad.ldapUri (ad.bindUpn username) "" (domainToBaseDn ad.domain)
      ("(sAMAccountName=" ++ username ++ ")")) then none
  else dir.search (ad.bindUpn username) (domainToBaseDn ad.domain)
    ("(sAMAccountName=" ++ username ++ ")")

end ActiveDirectoryAuthenticator

/-- A line that looks like another group. -/
def Stray (line : List Char) : Prop :=
  ∃ rest, Text.trim line = "memberOf:".toList ++ rest ∧ Text.trim rest ≠ []

/-- None of the lines that a value goes on with looks like another group. -/
def NoStray (ls : List (List Char)) : Prop := ∀ l ∈ ls.tail, ¬Stray l

/-- The name of a group is printed plainly. A line has room for 63 characters after `memberOf: CN=`,
and what is written there is the name; a name that is encoded would have to be what is printed for
it. -/
structure GroupDn.PrintedPlainly (g : GroupDn) : Prop where
  noStray : NoStray g.lines
  name : if isSafe g.text then (nameText g.cn).take 63 = nameOf g.cn
    else nameOf g.cn = [':', ' '] ++ (encodeValue g.text).take 65

/-! ## What is read from a line -/

/-- The group that a line shows. -/
def readLine (line : List Char) : Option String :=
  (Text.stripPrefix "memberOf:" (String.ofList (Text.trim line))).bind fun dn =>
    let dn := Text.trim dn.toList
    if dn = [] then none else some ((leafCn dn).getD (String.ofList dn))

theorem parseMemberOf_eq (ldif : String) :
    parseMemberOf ldif = (Text.lines ldif.toList).filterMap readLine := rfl

theorem readLine_of_trim_eq {line rest : List Char}
    (h : Text.trim line = "memberOf:".toList ++ rest) :
    readLine line = if Text.trim rest = [] then none
      else some ((leafCn (Text.trim rest)).getD (String.ofList (Text.trim rest))) := by
  have hstrip : String.ofList (Text.trim line) = "memberOf:" ++ String.ofList rest := by
    rw [h, String.ofList_append]
    rfl
  rw [readLine, hstrip, Text.stripPrefix_append, Option.bind_some, String.toList_ofList]

theorem readLine_eq_none_iff {line : List Char} : readLine line = none ↔ ¬Stray line := by
  constructor
  · rintro h ⟨rest, htrim, hne⟩
    rw [readLine_of_trim_eq htrim, if_neg hne] at h
    cases h
  · intro h
    by_contra hcon
    obtain ⟨name, hname⟩ := Option.ne_none_iff_exists'.1 hcon
    rw [readLine, Option.bind_eq_some_iff] at hname
    obtain ⟨dn, hdn, hread⟩ := hname
    have hprefix := congrArg String.toList (Text.stripPrefix_eq_some.1 hdn)
    rw [String.toList_ofList, String.toList_append] at hprefix
    refine h ⟨dn.toList, hprefix, fun hnil => ?_⟩
    simp [hnil] at hread

theorem leafCn_of_cn (z : List Char) :
    leafCn ("CN=".toList ++ z) = some (String.ofList (shown z)) := by
  obtain ⟨rest, hrest⟩ := Text.exists_splitOn ',' ("CN=".toList ++ z)
  have htake : (("CN=".toList ++ z).takeWhile fun c => c ≠ ',') =
      "CN=".toList ++ z.takeWhile fun c => c ≠ ',' :=
    List.takeWhile_append_of_pos (List.all_eq_true.1 (by decide))
  have htrim : Text.trim ("CN=".toList ++ z.takeWhile fun c => c ≠ ',') =
      "CN=".toList ++ shown z := by
    refine (Text.trim_cons (by decide) _).trans ?_
    exact Text.rdropWhile_append_cons (c := '=') (by decide) ['C', 'N'] _
  rw [leafCn, hrest, List.findSome?_cons, htake]
  dsimp only
  rw [htrim, String.ofList_append, String.ofList_toList, Text.stripPrefix_append, Option.some_or]

/-- A line with the name of a group as it is. -/
theorem readLine_plain (y : List Char) :
    readLine ("memberOf: CN=".toList ++ y) = some (String.ofList (shown y)) := by
  have htrim : Text.trim ("memberOf: CN=".toList ++ y) =
      "memberOf:".toList ++ (" CN=".toList ++ y.rdropWhile Text.isWhiteSpace) := by
    refine (Text.trim_cons (by decide) _).trans ?_
    exact Text.rdropWhile_append_cons (c := '=') (by decide) "memberOf: CN".toList y
  have hdn : Text.trim (" CN=".toList ++ y.rdropWhile Text.isWhiteSpace) =
      "CN=".toList ++ y.rdropWhile Text.isWhiteSpace := by
    have hdrop := Text.rdropWhile_append_cons (c := '=') (by decide) ['C', 'N']
      (y.rdropWhile Text.isWhiteSpace)
    rw [List.rdropWhile_idempotent] at hdrop
    exact hdrop
  rw [readLine_of_trim_eq htrim, hdn, if_neg (by simp), leafCn_of_cn, shown_rdropWhile,
    Option.getD_some]

/-! ## Encoded values -/

theorem mem_base64Alphabet {v : List Char} {c : Char} (hc : c ∈ encodeValue v) :
    c ∈ '=' :: Fabric.base64Alphabet := by
  have hsymbol : ∀ n, Fabric.base64Symbol n ∈ '=' :: Fabric.base64Alphabet := by
    intro n
    rw [Fabric.base64Symbol, List.getD_eq_getElem?_getD]
    cases h : Fabric.base64Alphabet[n.toNat]? with
    | none => exact List.mem_cons_self
    | some c => exact List.mem_cons_of_mem _ (List.mem_of_getElem? h)
  have hquad : ∀ b0 b1 b2, ∀ c ∈ Fabric.base64Quad b0 b1 b2, c ∈ '=' :: Fabric.base64Alphabet := by
    intro b0 b1 b2 c hc
    simp only [Fabric.base64Quad, List.mem_cons, List.not_mem_nil, or_false] at hc
    rcases hc with rfl | rfl | rfl | rfl
    · exact hsymbol _
    · exact hsymbol _
    · split_ifs
      · exact hsymbol _
      · exact List.mem_cons_self
    · split_ifs
      · exact hsymbol _
      · exact List.mem_cons_self
  unfold encodeValue at hc
  generalize utf8 (String.ofList v) = bytes at hc
  induction bytes using Fabric.base64Chars.induct with
  | case1 => cases hc
  | case2 b0 => exact hquad _ _ _ c hc
  | case3 b0 b1 => exact hquad _ _ _ c hc
  | case4 b0 b1 b2 rest ih =>
    rcases List.mem_append.1 hc with hc | hc
    · exact hquad _ _ _ c hc
    · exact ih hc

/-- The characters of an encoded value are printable, and none of them is white space, a comma or a
colon. -/
theorem encodeValue_char {v : List Char} {c : Char} (hc : c ∈ encodeValue v) :
    isPrint c ∧ Text.isWhiteSpace c = false ∧ c ≠ ',' := by
  have hall : ('=' :: Fabric.base64Alphabet).all
      (fun c => isPrint c ∧ Text.isWhiteSpace c = false ∧ c ≠ ',') := by decide +kernel
  exact Text.forall_mem_of_all hall c (mem_base64Alphabet hc)

theorem encodeValue_ne_nil {v : List Char} (h : v ≠ []) : encodeValue v ≠ [] := by
  obtain ⟨c, v, rfl⟩ := List.exists_cons_of_ne_nil h
  have hbytes : utf8 (String.ofList (c :: v)) ≠ [] := by simp [utf8, bytes]
  obtain ⟨b, bs, hbs⟩ := List.exists_cons_of_ne_nil hbytes
  rw [encodeValue, hbs, Fabric.base64Chars_cons]
  simp [Fabric.base64Quad]

/-- A line with an encoded name: the encoding is taken for the name. -/
theorem readLine_encoded {y : List Char} (hne : y ≠ [])
    (hy : ∀ c ∈ y, Text.isWhiteSpace c = false ∧ c ≠ ',') :
    readLine ("memberOf:: ".toList ++ y) = some (String.ofList ([':', ' '] ++ y)) := by
  have hself : ∀ p : List Char, (∀ c ∈ (p ++ y).head?, Text.isWhiteSpace c = false) →
      Text.trim (p ++ y) = p ++ y := by
    intro p hp
    refine Text.trim_eq_self hp fun c hc => ?_
    rw [List.getLast?_append_of_ne_nil _ hne] at hc
    exact (hy c (List.mem_of_getLast? hc)).1
  have htrim : Text.trim ("memberOf:: ".toList ++ y) = "memberOf:".toList ++ ([':', ' '] ++ y) :=
    hself _ (by simp; decide)
  have hdn : Text.trim ([':', ' '] ++ y) = [':', ' '] ++ y := hself _ (by simp; decide)
  have hcomma : ',' ∉ [':', ' '] ++ y := by
    simpa using fun h => (hy _ h).2 rfl
  have hleaf : leafCn ([':', ' '] ++ y) = none := by
    rw [leafCn, List.splitOn_eq_singleton hcomma, List.findSome?_singleton, hdn]
    simp [Text.stripPrefix, List.isPrefixOf?]
  rw [readLine_of_trim_eq htrim, hdn, if_neg (by simp), hleaf, Option.getD_none]

/-! ## What is read for a group -/

theorem GroupDn.isTail_tail (g : GroupDn) : IsTail g.tail := by
  intro c hc
  unfold GroupDn.tail at hc
  split_ifs at hc with h
  · cases hc
  · simpa using hc.symm

/-- The first line of a group that is printed as it is. -/
theorem GroupDn.lines_of_isSafe {g : GroupDn} (h : isSafe g.text) :
    ∃ ls, g.lines = ("memberOf: CN=".toList ++ (nameText g.cn ++ g.tail).take 63) :: ls := by
  have htake : ("CN=".toList ++ (nameText g.cn ++ g.tail)).take 66 =
      "CN=".toList ++ (nameText g.cn ++ g.tail).take 63 := by
    simp [List.take_append]
  rw [GroupDn.lines, attributeLines, if_neg (by simp [GroupDn.text]), if_pos h, folded, fold_fst]
  refine ⟨_, congrArg (· :: _) ?_⟩
  exact congrArg ("memberOf: ".toList ++ ·) htake

/-- The first line of a group that is printed encoded. -/
theorem GroupDn.lines_of_not_isSafe {g : GroupDn} (h : isSafe g.text = false) :
    ∃ ls, g.lines = ("memberOf:: ".toList ++ (encodeValue g.text).take 65) :: ls := by
  rw [GroupDn.lines, attributeLines, if_neg (by simp [GroupDn.text]), if_neg (by simp [h]), folded,
    fold_fst]
  exact ⟨_, rfl⟩

/-- The group is read on its first line, as its name or as something else. -/
theorem GroupDn.exists_readLine (g : GroupDn) : ∃ l ls n, g.lines = l :: ls ∧ readLine l = some n ∧
    (n = g.name ↔ if isSafe g.text then (nameText g.cn).take 63 = nameOf g.cn
      else nameOf g.cn = [':', ' '] ++ (encodeValue g.text).take 65) := by
  by_cases h : isSafe g.text
  · obtain ⟨ls, hls⟩ := GroupDn.lines_of_isSafe h
    refine ⟨_, ls, _, hls, readLine_plain _, ?_⟩
    have hprint : ∀ c ∈ nameText g.cn, isPrint c := fun c hc =>
      isPrint_of_isSafe h c (List.mem_append_right _ (List.mem_append_left _ hc))
    rw [if_pos h, GroupDn.name, String.ofList_inj, shown_take_eq_iff hprint g.cn_last g.isTail_tail]
  · obtain ⟨ls, hls⟩ := GroupDn.lines_of_not_isSafe (by simpa using h)
    have hne : (encodeValue g.text).take 65 ≠ [] := by
      simpa using encodeValue_ne_nil (v := g.text) (by simp [GroupDn.text])
    have hy : ∀ c ∈ (encodeValue g.text).take 65, Text.isWhiteSpace c = false ∧ c ≠ ',' :=
      fun c hc => (encodeValue_char (List.mem_of_mem_take hc)).2
    refine ⟨_, ls, _, hls, readLine_encoded hne hy, ?_⟩
    rw [if_neg h, GroupDn.name, String.ofList_inj, eq_comm]

theorem GroupDn.read_ne_nil (g : GroupDn) : g.lines.filterMap readLine ≠ [] := by
  obtain ⟨l, ls, n, hls, hread, -⟩ := g.exists_readLine
  rw [hls, List.filterMap_cons_some hread]
  exact List.cons_ne_nil _ _

theorem GroupDn.read_eq_iff (g : GroupDn) :
    g.lines.filterMap readLine = [g.name] ↔ g.PrintedPlainly := by
  obtain ⟨l, ls, n, hls, hread, hname⟩ := g.exists_readLine
  rw [hls, List.filterMap_cons_some hread, List.cons_eq_cons, hname, List.filterMap_eq_nil_iff]
  simp only [readLine_eq_none_iff]
  constructor
  · rintro ⟨hn, hstray⟩
    exact ⟨by rwa [hls], hn⟩
  · rintro ⟨hstray, hn⟩
    rw [hls] at hstray
    exact ⟨hn, hstray⟩

/-! ## What is read for an entry -/

namespace Directory

variable {ι : Type*} (dir : Directory ι) (memberOf : ι → List GroupDn)

/-- The name of an entry is not taken for a group, unless one of its further lines looks like
one. -/
theorem read_dnLines_eq_nil_iff (e : ι) :
    (dir.dnLines e).filterMap readLine = [] ↔ NoStray (dir.dnLines e) := by
  obtain ⟨r, ls, hls⟩ := exists_attributeLines encodeValue "dn".toList (dir.dn e)
  have hfirst : readLine ("dn".toList ++ ':' :: r) = none := by
    rw [readLine_eq_none_iff]
    rintro ⟨rest, htrim, -⟩
    rw [show Text.trim ("dn".toList ++ ':' :: r) = _ from Text.trim_cons (by decide) _] at htrim
    have hdrop := Text.rdropWhile_append_cons (c := ':') (by decide) "dn".toList r
    exact absurd (hdrop.symm.trans htrim) (by simp)
  rw [dnLines, hls, List.filterMap_cons_none hfirst, List.filterMap_eq_nil_iff]
  simp only [readLine_eq_none_iff]
  rfl

theorem isPrint_entryLines {e : ι} {l : List Char} (hl : l ∈ dir.entryLines memberOf e) :
    ∀ c ∈ l, isPrint c := by
  have hencode : ∀ v, ∀ c ∈ encodeValue v, isPrint c := fun v c hc => (encodeValue_char hc).1
  simp only [entryLines, List.mem_append, List.mem_flatMap, List.mem_singleton] at hl
  rcases hl with hl | ⟨g, -, hl⟩ | rfl
  · exact isPrint_attributeLines hencode (List.all_eq_true.1 (by decide)) hl
  · exact isPrint_attributeLines hencode (List.all_eq_true.1 (by decide)) hl
  · simp

/-- What the authenticator reads from the text of some entries. -/
theorem parseMemberOf_ldif (es : List ι) :
    parseMemberOf (dir.ldif memberOf es) = es.flatMap fun e =>
      (dir.dnLines e).filterMap readLine ++
        (memberOf e).flatMap fun g => g.lines.filterMap readLine := by
  have hlines : ∀ l ∈ es.flatMap (dir.entryLines memberOf), ∀ c ∈ l, isPrint c := by
    intro l hl
    obtain ⟨e, -, hl⟩ := List.mem_flatMap.1 hl
    exact dir.isPrint_entryLines memberOf hl
  have hempty : readLine [] = none := by decide
  rw [parseMemberOf_eq, ldif, String.toList_ofList, lines_printed hlines, List.filterMap_flatMap]
  refine List.flatMap_congr fun e _ => ?_
  rw [entryLines, List.filterMap_append, List.filterMap_append, List.filterMap_flatMap,
    List.filterMap_cons_none hempty, List.filterMap_nil, List.append_nil]

end Directory

/-! ## The groups of the identity -/

namespace ActiveDirectoryAuthenticator

variable {ι : Type*} {ad : ActiveDirectoryAuthenticator} {dir : Directory ι} {username : String}

/-- What is read when the search finds some entries, or fails. -/
def readGroups (dir : Directory ι) (memberOf : ι → List GroupDn) : Option (List ι) → List String
  | none => []
  | some es => parseMemberOf (dir.ldif memberOf es)

/-- The groups are read right, whatever the memberships, when the search ends in this way. -/
def ReadsRight (dir : Directory ι) (b : ι) (found : Option (List ι)) : Prop :=
  ∀ memberOf : ι → List GroupDn, (∀ e, ∀ g ∈ memberOf e, g ∈ dir.groups) →
    readGroups dir memberOf found = (memberOf b).map GroupDn.name

theorem resolveGroups_of_ok {tool : Tool} {uri bindDn password stdout stderr : String}
    (h : runWithStdin tool "ldapsearch" (searchArgs uri bindDn password (domainToBaseDn ad.domain)
      ("(sAMAccountName=" ++ username ++ ")")) = .ok (0, stdout, stderr)) :
    ad.resolveGroups tool uri bindDn password username = parseMemberOf stdout := by
  rw [searchArgs] at h
  rw [resolveGroups, h]
  rfl

/-- A search that does not exit with zero gives no groups. -/
theorem resolveGroups_of_ne {tool : Tool} {uri bindDn password : String}
    (h : ∀ stdout stderr,
      runWithStdin tool "ldapsearch" (searchArgs uri bindDn password (domainToBaseDn ad.domain)
        ("(sAMAccountName=" ++ username ++ ")")) ≠ .ok (0, stdout, stderr)) :
    ad.resolveGroups tool uri bindDn password username = [] := by
  rw [resolveGroups]
  split
  · rename_i hrun
    exact absurd hrun (h _ _)
  · rfl

theorem authenticate_of_bound {memberOf : ι → List GroupDn} {tool : Tool}
    {password stdout stderr : String}
    (hanswers : Answers tool dir memberOf ad.ldapUri (ad.bindUpn username) password)
    (hbind : runWithStdin tool "ldapwhoami" (bindArgs ad.ldapUri (ad.bindUpn username) password) =
      .ok (0, stdout, stderr)) :
    ad.authenticate tool (.password username password) =
      .ok ⟨username, readGroups dir memberOf (ad.found dir username)⟩ := by
  have hpass : '\x00' ∉ password.toList := by
    intro hnul
    rw [runWithStdin, if_pos (by simp [hasNul, bindArgs, hnul])] at hbind
    cases hbind
  have hnul : ∀ base filter,
      hasNul (searchArgs ad.ldapUri (ad.bindUpn username) password base filter) =
      hasNul (searchArgs ad.ldapUri (ad.bindUpn username) "" base filter) := by
    intro base filter
    simp [hasNul, searchArgs, hpass]
  have hgroups : ad.resolveGroups tool ad.ldapUri (ad.bindUpn username) password username =
      readGroups dir memberOf (ad.found dir username) := by
    rw [found]
    split_ifs with h
    · refine resolveGroups_of_ne (fun out err hrun => ?_)
      rw [runWithStdin, if_pos ((hnul _ _).trans h)] at hrun
      cases hrun
    · have hrun : ∀ {r}, tool "ldapsearch" (searchArgs ad.ldapUri (ad.bindUpn username) password
          (domainToBaseDn ad.domain) ("(sAMAccountName=" ++ username ++ ")")) = r →
          runWithStdin tool "ldapsearch" (searchArgs ad.ldapUri (ad.bindUpn username) password
            (domainToBaseDn ad.domain) ("(sAMAccountName=" ++ username ++ ")")) = r := by
        intro r hr
        rw [runWithStdin, if_neg (by rwa [hnul]), hr]
      cases hsearch : dir.search (ad.bindUpn username) (domainToBaseDn ad.domain)
          ("(sAMAccountName=" ++ username ++ ")") with
      | none =>
        obtain ⟨code, out, err, hcode, htool⟩ := hanswers.failed _ _ hsearch
        refine resolveGroups_of_ne fun out' err' hzero => ?_
        rw [hrun htool] at hzero
        exact hcode (congrArg Prod.fst (Except.ok.inj hzero))
      | some es =>
        obtain ⟨err, htool⟩ := hanswers.found _ _ es hsearch
        exact resolveGroups_of_ok (hrun htool)
  rw [← hgroups]
  exact authenticate_eq_ok_iff.2 ⟨_, _, _, _, rfl, hbind, rfl⟩

/-- A name that cannot be passed to the tool cannot be bound with any password. -/
theorem hasNul_bindArgs (h : ad.unpassable username) (password : String) :
    hasNul (bindArgs ad.ldapUri (ad.bindUpn username) password) := by
  obtain ⟨arg, hmem, hnul⟩ := List.any_eq_true.1 h
  refine List.any_eq_true.2 ⟨arg, ?_, hnul⟩
  simp only [bindArgs, List.mem_cons, List.not_mem_nil, or_false] at hmem ⊢
  rcases hmem with rfl | rfl | rfl | rfl | rfl | rfl | rfl
  on_goal 7 => simp at hnul
  all_goals simp

/-- A server that accepts every bind and answers searches from the directory. -/
def answering (dir : Directory ι) (memberOf : ι → List GroupDn) : Tool := fun cmd args =>
  match cmd, args with
  | "ldapsearch", ["-x", "-LLL", "-H", _, "-D", bindDn, "-w", _, "-b", base, filter, "memberOf"] =>
    match dir.search bindDn base filter with
    | none => .ok (1, "", "")
    | some es => .ok (0, dir.ldif memberOf es, "")
  | _, _ => .ok (0, "", "")

theorem answers_answering (dir : Directory ι) (memberOf : ι → List GroupDn)
    (uri bindDn password : String) :
    Answers (answering dir memberOf) dir memberOf uri bindDn password where
  found base filter es h := ⟨"", by simp [answering, searchArgs, h]⟩
  failed base filter h := ⟨1, "", "", by decide, by simp [answering, searchArgs, h]⟩

/-- For a user who can be passed to the tool, the groups are right just when they are read right. -/
theorem groupsExact_iff_readsRight (hpass : ad.unpassable username = false) :
    ad.GroupsExact dir username ↔
      ReadsRight dir (dir.bound (ad.bindUpn username)) (ad.found dir username) := by
  constructor
  · intro h memberOf hgroups
    have hanswers := answers_answering dir memberOf ad.ldapUri (ad.bindUpn username) ""
    have hbind : runWithStdin (answering dir memberOf) "ldapwhoami"
        (bindArgs ad.ldapUri (ad.bindUpn username) "") = .ok (0, "", "") := by
      rw [runWithStdin, if_neg (by simpa [unpassable] using hpass)]
      rfl
    have hright := h memberOf _ "" "" "" hgroups hanswers hbind
    rw [authenticate_of_bound hanswers hbind] at hright
    exact congrArg Identity.groups (Except.ok.inj hright)
  · intro h memberOf tool password stdout stderr hgroups hanswers hbind
    rw [authenticate_of_bound hanswers hbind, h memberOf hgroups]

section ReadsRight

variable {b : ι} {es : List ι}

/-- Where nobody is in a group, none must be read. -/
theorem ReadsRight.noStray (h : ReadsRight dir b (some es)) : ∀ e ∈ es, NoStray (dir.dnLines e) := by
  intro e he
  have hnone : readGroups dir (fun _ => []) (some es) = [] := h (fun _ => []) (by simp)
  rw [readGroups, Directory.parseMemberOf_ldif, List.flatMap_eq_nil_iff] at hnone
  have hdn := hnone e he
  rwa [List.flatMap_nil, List.append_nil, Directory.read_dnLines_eq_nil_iff] at hdn

theorem readGroups_of_noStray (hstray : ∀ e ∈ es, NoStray (dir.dnLines e))
    (memberOf : ι → List GroupDn) :
    readGroups dir memberOf (some es) =
      es.flatMap fun e => (memberOf e).flatMap fun g => g.lines.filterMap readLine := by
  rw [readGroups, Directory.parseMemberOf_ldif]
  refine List.flatMap_congr fun e he => ?_
  rw [(dir.read_dnLines_eq_nil_iff e).2 (hstray e he), List.nil_append]

open Classical in
/-- The entry `e'` is a member of one group, and nobody else is. -/
noncomputable def onlyMember (g : GroupDn) (e' e : ι) : List GroupDn := if e = e' then [g] else []

theorem mem_groups_of_mem_onlyMember {g : GroupDn} (hg : g ∈ dir.groups) (e' : ι) :
    ∀ e, ∀ g' ∈ onlyMember g e' e, g' ∈ dir.groups := by
  intro e g' hg'
  unfold onlyMember at hg'
  split_ifs at hg' with he
  · rwa [List.mem_singleton.1 hg']
  · cases hg'

/-- Where there is a group, the search has to find the entry that is bound and no other one: a group
of another entry would be read too. -/
theorem ReadsRight.eq_of_mem {g : GroupDn} (hg : g ∈ dir.groups) (h : ReadsRight dir b (some es)) :
    ∀ e ∈ es, e = b := by
  intro e he
  by_contra hne
  have hread := h (onlyMember g e) (mem_groups_of_mem_onlyMember hg e)
  rw [readGroups_of_noStray h.noStray, onlyMember, if_neg (Ne.symm hne), List.map_nil,
    List.flatMap_eq_nil_iff] at hread
  have hge := hread e he
  rw [onlyMember, if_pos rfl, List.flatMap_singleton] at hge
  exact g.read_ne_nil hge

theorem ReadsRight.found_eq {found : Option (List ι)} {g : GroupDn} (hg : g ∈ dir.groups)
    (h : ReadsRight dir b found) : found = some [b] ∧ g.PrintedPlainly := by
  have hread := h (onlyMember g b) (mem_groups_of_mem_onlyMember hg b)
  rw [onlyMember, if_pos rfl, List.map_singleton] at hread
  cases found with
  | none => cases hread
  | some es =>
    have hb := h.eq_of_mem hg
    have hgroup : ∀ e ∈ es, ((onlyMember g b e).flatMap fun g => g.lines.filterMap readLine) =
        g.lines.filterMap readLine := by
      intro e he
      rw [onlyMember, if_pos (hb e he), List.flatMap_singleton]
    rw [readGroups_of_noStray h.noStray, List.flatMap_congr hgroup] at hread
    rcases es with _ | ⟨e, _ | ⟨e', es⟩⟩
    · cases hread
    · rw [List.flatMap_singleton] at hread
      rw [hb e List.mem_cons_self]
      exact ⟨rfl, g.read_eq_iff.1 hread⟩
    · have hpos := List.length_pos_of_ne_nil g.read_ne_nil
      have hlen := congrArg List.length hread
      rw [List.flatMap_cons, List.flatMap_cons, List.length_append, List.length_append,
        List.length_singleton] at hlen
      omega

theorem readsRight_iff {found : Option (List ι)} :
    ReadsRight dir b found ↔ (∀ es, found = some es → ∀ e ∈ es, NoStray (dir.dnLines e)) ∧
      (dir.groups = ∅ ∨ found = some [b] ∧ ∀ g ∈ dir.groups, g.PrintedPlainly) := by
  constructor
  · intro h
    refine ⟨fun es hes => (hes ▸ h).noStray, ?_⟩
    rcases dir.groups.eq_empty_or_nonempty with hempty | ⟨g, hg⟩
    · exact .inl hempty
    · exact .inr ⟨(h.found_eq hg).1, fun g' hg' => (h.found_eq hg').2⟩
  · rintro ⟨hstray, hgroups⟩ memberOf hmem
    rcases hgroups with hempty | ⟨rfl, hplain⟩
    · have hnil : ∀ e, memberOf e = [] := fun e =>
        List.eq_nil_iff_forall_not_mem.2 fun g hg => by simpa [hempty] using hmem e g hg
      cases found with
      | none => simp [readGroups, hnil]
      | some es => simp [readGroups_of_noStray (hstray es rfl), hnil]
    · rw [readGroups_of_noStray (hstray _ rfl), List.flatMap_singleton,
        ← List.flatMap_singleton' (List.map _ _),
        List.flatMap_map]
      exact List.flatMap_congr fun g hg => g.read_eq_iff.2 (hplain g (hmem b g hg))

end ReadsRight

/-- The groups of a user who has been bound are those of the entry that was bound, whatever the
memberships, if and only if no name of an entry that is found has a line that looks like a group,
and, unless there are no groups, the search finds that entry alone and every group is printed
plainly. -/
theorem groupsExact_iff (ad : ActiveDirectoryAuthenticator) (dir : Directory ι) (username : String) :
    ad.GroupsExact dir username ↔ ad.unpassable username ∨
      (∀ es, ad.found dir username = some es → ∀ e ∈ es, NoStray (dir.dnLines e)) ∧
        (dir.groups = ∅ ∨ ad.found dir username = some [dir.bound (ad.bindUpn username)] ∧
          ∀ g ∈ dir.groups, g.PrintedPlainly) := by
  by_cases hpass : ad.unpassable username
  · refine iff_of_true (fun memberOf tool password stdout stderr _ _ hbind => ?_) (.inl hpass)
    rw [runWithStdin, if_pos (hasNul_bindArgs hpass password)] at hbind
    cases hbind
  · rw [groupsExact_iff_readsRight (by simpa using hpass), or_iff_right hpass]
    exact readsRight_iff

end ActiveDirectoryAuthenticator

/-! ## A user principal name -/

/-- The group `CN=ops,DC=EXAMPLE,DC=COM`. -/
def ops : GroupDn where
  cn := [.plain 'o' rfl, .plain 'p' rfl, .plain 's' rfl]
  parent := "DC=EXAMPLE,DC=COM".toList
  cn_last := by simp [NameChar.char]

/-- A directory with one account, which is found by its name only. -/
def oneUser : Directory Unit where
  dn _ := "CN=Alice,DC=EXAMPLE,DC=COM".toList
  bound _ := ()
  search _ _ filter := some (if filter = "(sAMAccountName=alice)" then [()] else [])
  groups := {ops}

/-- Alice is in a group. Bound with her user principal name, she is in none. -/
theorem upn_not_groupsExact :
    ActiveDirectoryAuthenticator.found ⟨"EXAMPLE.COM", []⟩ oneUser "alice" = some [()] ∧
      ActiveDirectoryAuthenticator.found ⟨"EXAMPLE.COM", []⟩ oneUser "alice@EXAMPLE.COM" = some [] ∧
      ¬ActiveDirectoryAuthenticator.GroupsExact ⟨"EXAMPLE.COM", []⟩ oneUser "alice@EXAMPLE.COM" := by
  have hfound : ActiveDirectoryAuthenticator.found ⟨"EXAMPLE.COM", []⟩ oneUser "alice@EXAMPLE.COM" =
      some [] := by decide +kernel
  refine ⟨by decide +kernel, hfound, fun h => ?_⟩
  have hread := (ActiveDirectoryAuthenticator.groupsExact_iff_readsRight (by decide +kernel)).1 h
  have hops : ops ∈ oneUser.groups := Set.mem_singleton ops
  have hbound := (hread.found_eq hops).1
  rw [hfound] at hbound
  cases hbound

end OCF.Auth
