import BugHunt.Proofs.Housing
/-!
Trees that are kept up: directories and links stay, files come and go, directories may be added. What
a path leads to in a tree it leads to in one that is kept up from it, and names below a path to a
directory stay names of its entries.
-/

namespace BugHunt.Proofs.Grounds
open FileTree Growth Homing Housing Names Places Trees Walking Ways

variable {t u v : FileTree} {here P Q : Place} {links : Nat} {followLast : Bool}

/-- Whether all directories and links of a tree are as they were in another one, which has no other
links. -/
def Upkeep (t u : FileTree) : Prop :=
  ∀ q, u.node? q = t.node? q ∨ Inert (t.node? q) ∧ ∀ path, u.node? q ≠ some (.link path)

theorem Upkeep.refl (t : FileTree) : Upkeep t t := fun _ => .inl rfl

theorem Upkeep.trans (first : Upkeep t u) (second : Upkeep u v) : Upkeep t v := by
  intro q
  rcases second q with same | ⟨inert, noLink⟩
  · rw [same]
    exact first q
  · rcases first q with same | ⟨inert', -⟩
    · exact .inr ⟨same ▸ inert, noLink⟩
    · exact .inr ⟨inert', noLink⟩

theorem upkeep_of_view (same : u.node? = t.node?) : Upkeep t u := fun q => .inl (congrFun same q)

/-- A node that is no link comes to stand where no directory and no link stood. -/
theorem Upkeep.put {node : Option Node} (inert : Inert (t.node? Q))
    (is : u.node? = View.put t.node? Q node) (noLink : ∀ path, node ≠ some (.link path)) :
    Upkeep t u := by
  intro q
  rw [is]
  by_cases same : q = Q
  · subst same
    rw [View.put_self]
    exact .inr ⟨inert, noLink⟩
  · exact .inl (View.put_other same)

/-- Whether all directories and links of a tree stand in another one. -/
def Firm (t u : FileTree) : Prop := ∀ q, ¬ Inert (t.node? q) → u.node? q = t.node? q

theorem Firm.refl (t : FileTree) : Firm t t := fun _ _ => rfl

theorem Firm.trans (first : Firm t u) (second : Firm u v) : Firm t v := by
  intro q busy
  have same := first q busy
  rw [second q (same ▸ busy), same]

theorem busy_of_directory (there : t.isDirectoryAt Q) : ¬ Inert (t.node? Q) := by
  intro inert
  unfold FileTree.isDirectoryAt at there
  rw [inert.noDirectory] at there
  cases there

theorem Firm.isDirectoryAt (firm : Firm t u) (there : t.isDirectoryAt Q) : u.isDirectoryAt Q := by
  unfold FileTree.isDirectoryAt
  rw [firm Q (busy_of_directory there)]
  exact there

theorem Firm.link (firm : Firm t u) {path : Path} (isLink : t.node? Q = some (.link path)) :
    u.node? Q = some (.link path) := by
  rw [firm Q fun inert => inert.noLink path isLink, isLink]

theorem Upkeep.firm (upkeep : Upkeep t u) : Firm t u :=
  fun q busy => (upkeep q).resolve_right fun other => busy other.1

theorem Upkeep.isDirectoryAt (upkeep : Upkeep t u) (there : t.isDirectoryAt Q) : u.isDirectoryAt Q :=
  upkeep.firm.isDirectoryAt there

theorem Upkeep.noLink (upkeep : Upkeep t u) (noLink : ∀ path, t.node? Q ≠ some (.link path)) :
    ∀ path, u.node? Q ≠ some (.link path) := by
  rcases upkeep Q with same | ⟨-, noLink'⟩
  · rwa [same]
  · exact noLink'

/-! ## Paths -/

theorem walk_node {ps : List Bytes} {target : Target}
    (found : t.walk followLast links here ps = .ok target) : target.node = t.node? target.place := by
  fun_induction FileTree.walk t followLast links here ps <;> grind

theorem find_node {p : Path} {target : Target} (found : t.find here p followLast = .ok target) :
    target.node = t.node? target.place := by
  obtain ⟨-, -, found⟩ := find_eq_ok.mp found
  exact walk_node found

theorem linkless_of_nodes (nodes : ∀ entry ∈ t.nodes, ∀ path, entry.2 ≠ .link path) :
    ∀ q path, t.node? q ≠ some (.link path) := by
  intro q path isLink
  unfold FileTree.node? at isLink
  split at isLink
  · cases isLink
  · obtain ⟨before, after, same, -⟩ := List.lookup_eq_some_iff.mp isLink
    exact nodes (q, .link path) (by simp [same]) path rfl

/-- In a tree without links no path ends at one. -/
theorem unlinked_of_linkless (linkless : ∀ q path, t.node? q ≠ some (.link path)) (p : Path) :
    Unlinked t here p :=
  fun q path found => linkless q path (find_node found).symm

/-- What a walk leads to that finds something, it leads to wherever the directories and links are the
same, if no link has come to stand there. -/
theorem walk_kept (firm : Firm t u) {ps : List Bytes} {node : Node}
    (found : t.walk followLast links here ps = .ok ⟨Q, some node⟩)
    (unlinked : Inert (t.node? Q) → ∀ path, u.node? Q ≠ some (.link path)) :
    u.walk followLast links here ps = .ok ⟨Q, u.node? Q⟩ := by
  have stays {q : Place} (there : t.isDirectoryAt q) := firm.isDirectoryAt there
  induction links, here, ps using FileTree.walk.induct t followLast with
  | case1 links here =>
    rw [walk] at found ⊢
    obtain ⟨rfl, -⟩ := Target.mk.inj (Except.ok.inj found)
    rfl
  | case2 links here piece rest nowhere =>
    rw [walk_nowhere (by simpa using nowhere)] at found
    cases found
  | case3 links here piece rest there idle ih =>
    have there : t.isDirectoryAt here := by simpa using there
    rw [walk_stay there idle] at found
    rw [walk_stay (stays there) idle, ih found]
  | case4 links here rest there busy ih =>
    have there : t.isDirectoryAt here := by simpa using there
    rw [walk_back there] at found
    rw [walk_back (stays there), ih found]
  | case5 links here piece rest there busy named long =>
    rw [walk_long (by simpa using there) busy named long] at found
    cases found
  | case6 links here piece rest there busy named short isFree last =>
    rw [walk_onto (by simpa using there) busy named short (by simp [isFree]), onto, isFree] at found
    simp [last] at found
  | case7 links here piece rest there busy named short isFree more =>
    rw [walk_onto (by simpa using there) busy named short (by simp [isFree]), onto, isFree] at found
    simp [more] at found
  | case8 links here piece rest there busy named short path isLink last =>
    have there : t.isDirectoryAt here := by simpa using there
    have last : rest = [] ∧ followLast = false := by simpa using last
    rw [walk_stops there busy named short isLink last.1 last.2] at found
    obtain ⟨rfl, -⟩ := Target.mk.inj (Except.ok.inj found)
    rw [walk_stops (stays there) busy named short (firm.link isLink) last.1 last.2, firm.link isLink]
  | case9 here piece rest there busy named short path isLink more =>
    have more : rest ≠ [] ∨ followLast := by simpa [imp_iff_not_or] using more
    rw [walk_loop (by simpa using there) busy named short isLink more] at found
    cases found
  | case10 here piece rest there busy named short path isLink more links ih =>
    have there : t.isDirectoryAt here := by simpa using there
    have more : rest ≠ [] ∨ followLast := by simpa [imp_iff_not_or] using more
    rw [walk_link there busy named short isLink more] at found
    rw [walk_link (stays there) busy named short (firm.link isLink) more]
    exact ih (by simpa only [dite_eq_ite] using found)
  | case11 links here piece rest there busy named short node' noLink isNode ih =>
    have there : t.isDirectoryAt here := by simpa using there
    have noLink : ∀ path, t.node? (here ++ [piece]) ≠ some (.link path) := by
      intro path isLink
      exact noLink path (Option.some.inj (isNode.symm.trans isLink))
    rw [walk_onto there busy named short noLink, onto, isNode] at found
    by_cases inert : Inert (t.node? (here ++ [piece]))
    · cases rest with
      | nil =>
        rw [walk] at found
        obtain ⟨rfl, -⟩ := Target.mk.inj (Except.ok.inj found)
        rw [walk_onto (stays there) busy named short (unlinked inert)]
        exact onto_last _
      | cons next rest =>
        rw [walk_inert inert (by simp)] at found
        cases found
    · have same := firm _ inert
      rw [walk_onto (stays there) busy named short (same ▸ noLink), onto, same, isNode]
      exact ih found

/-- What a path leads to that finds something, it leads to in a tree that is kept up. -/
theorem find_kept (upkeep : Upkeep t u) {p : Path} {node : Node}
    (found : t.find here p followLast = .ok ⟨Q, some node⟩) :
    u.find here p followLast = .ok ⟨Q, u.node? Q⟩ := by
  obtain ⟨filled, short, found⟩ := find_eq_ok.mp found
  have kept := walk_kept upkeep.firm found fun inert => upkeep.noLink inert.noLink
  exact find_eq_ok.mpr ⟨filled, short, kept⟩

/-- An absolute path leads to the same from everywhere. -/
theorem find_elsewhere {p : Path} (absolute : p.isAbsolute) (base : Place) :
    t.find base p followLast = t.find here p followLast := by
  unfold FileTree.find
  rw [if_pos absolute, if_pos absolute]

/-! ## Names below a path -/

/-- What stands before the names that are joined to a path are its own pieces, but for an empty one
that a slash at its end makes. -/
theorem pieces_of_lead {d : Path} {pre : List Bytes} (lead : Lead (front d) pre) (some : d.bytes ≠ []) :
    d.pieces = pre ∨ d.pieces = pre ++ [[]] := by
  have split := (lead [] (by simp)).1
  rw [List.append_nil] at split
  unfold front at split
  split at split
  · rename_i none
    exact absurd (List.getLast?_eq_none_iff.mp none) some
  · rename_i last isLast
    split at split
    · rename_i slash
      obtain ⟨init, same⟩ := List.getLast?_eq_some_iff.mp isLast
      rw [same, slash, splitOn_append] at split
      right
      rw [Path.pieces, same, slash, splitOn_append, split]
    · rw [splitOn_append] at split
      exact .inl (List.append_cancel_right split)

/-- What leads to a directory, blanks at its end aside, leads to it before each name. -/
theorem walk_through (there : t.isDirectoryAt P) {pre blanks : List Bytes} {node : Node}
    (blank : blanks.all (·.isEmpty))
    (leads : t.walk true links here (pre ++ blanks) = .ok ⟨P, some node⟩) :
    ∃ left, ∀ followLast name, name ≠ [] →
      t.walk followLast links here (pre ++ [name]) = t.walk followLast left P [name] := by
  induction links, here, pre using FileTree.walk.induct t true with
  | case1 links here =>
    suffices same : here = P from ⟨links, fun _ _ _ => same ▸ rfl⟩
    cases inside : t.isDirectoryAt here with
    | true =>
      have onward : t.walk true links here (blanks ++ []) = t.walk true links here [] :=
        walk_blanks inside blank []
      rw [List.append_nil] at onward
      rw [List.nil_append, onward, walk] at leads
      exact (Target.mk.inj (Except.ok.inj leads)).1
    | false =>
      cases blanks with
      | nil =>
        rw [List.append_nil, walk] at leads
        exact (Target.mk.inj (Except.ok.inj leads)).1
      | cons blank rest =>
        rw [List.nil_append, walk_nowhere inside] at leads
        cases leads
  | case2 links here piece rest nowhere =>
    rw [List.cons_append, walk_nowhere (by simpa using nowhere)] at leads
    cases leads
  | case3 links here piece rest there idle ih =>
    have there : t.isDirectoryAt here := by simpa using there
    rw [List.cons_append, walk_stay there idle] at leads
    simpa only [List.cons_append, walk_stay there idle] using ih leads
  | case4 links here rest there busy ih =>
    have there : t.isDirectoryAt here := by simpa using there
    rw [List.cons_append, walk_back there] at leads
    simpa only [List.cons_append, walk_back there] using ih leads
  | case5 links here piece rest there busy named long =>
    rw [List.cons_append, walk_long (by simpa using there) busy named long] at leads
    cases leads
  | case6 links here piece rest there busy named short isFree last =>
    rw [List.cons_append, walk_onto (by simpa using there) busy named short (by simp [isFree]), onto,
      isFree] at leads
    dsimp only at leads
    split at leads <;> cases leads
  | case7 links here piece rest there busy named short isFree more =>
    rw [List.cons_append, walk_onto (by simpa using there) busy named short (by simp [isFree]), onto,
      isFree] at leads
    dsimp only at leads
    split at leads <;> cases leads
  | case8 links here piece rest there busy named short path isLink last => simp at last
  | case9 here piece rest there busy named short path isLink more =>
    rw [List.cons_append, walk_loop (by simpa using there) busy named short isLink (.inr rfl)] at leads
    cases leads
  | case10 here piece rest there busy named short path isLink more links ih =>
    have there : t.isDirectoryAt here := by simpa using there
    rw [List.cons_append, walk_link there busy named short isLink (.inr rfl), ← List.append_assoc] at leads
    obtain ⟨left, goesOn⟩ := ih (by simpa only [dite_eq_ite] using leads)
    refine ⟨left, fun followLast name some => ?_⟩
    rw [List.cons_append, walk_link there busy named short isLink (.inl (by simp)),
      ← goesOn followLast name some, List.append_assoc]
    rfl
  | case11 links here piece rest there busy named short node' noLink isNode ih =>
    have there : t.isDirectoryAt here := by simpa using there
    have noLink : ∀ path, t.node? (here ++ [piece]) ≠ some (.link path) := by
      intro path isLink
      exact noLink path (Option.some.inj (isNode.symm.trans isLink))
    rw [List.cons_append, walk_onto there busy named short noLink, onto, isNode] at leads
    obtain ⟨left, goesOn⟩ := ih leads
    refine ⟨left, fun followLast name some => ?_⟩
    rw [List.cons_append, walk_onto there busy named short noLink, onto, isNode]
    exact goesOn followLast name some

/-- Whether a path leads to a directory. Names are joined to the empty path, too: it stands for the
directory that relative paths start from. -/
structure Leads (t : FileTree) (here : Place) (d : Path) (P : Place) : Prop where
  there : t.isDirectoryAt P
  found : d.bytes = [] ∧ P = here ∨ ∃ node, t.find here d true = .ok ⟨P, some node⟩

theorem Leads.kept {d : Path} (leads : Leads t here d P) (upkeep : Upkeep t u) : Leads u here d P := by
  have there := upkeep.isDirectoryAt leads.there
  refine ⟨there, ?_⟩
  rcases leads.found with empty | ⟨node, found⟩
  · exact .inl empty
  · obtain ⟨node', isNode, -⟩ := (Option.any_eq_true _ _).mp there
    exact .inr ⟨node', isNode ▸ find_kept upkeep found⟩

theorem Leads.elsewhere {d : Path} (leads : Leads t here d P) (absolute : d.isAbsolute) (base : Place) :
    Leads t base d P := by
  refine ⟨leads.there, ?_⟩
  rcases leads.found with ⟨empty, -⟩ | ⟨node, found⟩
  · simp [Path.isAbsolute, empty] at absolute
  · exact .inr ⟨node, (find_elsewhere absolute base).trans found⟩

/-- A name that is joined to a path is the last one of the new path, and the same stands before each. -/
theorem ends_entry (d : Path) : ∃ pre, Lead (front d) pre ∧
    ∀ {name : String}, Proper (utf8 name) → Ends (d / name) pre (utf8 name) := by
  obtain ⟨pre, lead⟩ := lead_front d
  refine ⟨pre, lead, fun {name} proper => ⟨?_, proper⟩⟩
  rw [show d / name = d / Path.ofString name from rfl, entry_eq d proper.clean]
  exact (lead _ proper.clean).1

/-- What a name below the path finds is the entry of that name. -/
theorem Leads.entry {d : Path} {name : String} (leads : Leads t here d P) (proper : Proper (utf8 name))
    {target : Target} (found : t.find here (d / name) followLast = .ok target)
    (stays : followLast → ∀ path, t.node? (P ++ [utf8 name]) ≠ some (.link path)) :
    target = ⟨P ++ [utf8 name], t.node? (P ++ [utf8 name])⟩ := by
  obtain ⟨pre, lead, ends⟩ := ends_entry d
  have ways : ∃ left, ∀ followLast name, name ≠ [] →
      t.walk followLast mostLinks (if pre.head? == some [] then [] else here) (pre ++ [name]) =
        t.walk followLast left P [name] := by
    rcases leads.found with ⟨empty, rfl⟩ | ⟨node, found⟩
    · have split := (lead [] (by simp)).1
      rw [front, empty] at split
      obtain rfl : pre = [] := (List.append_cancel_right (show [] ++ [[]] = pre ++ [[]] from split)).symm
      exact ⟨mostLinks, fun _ _ _ => rfl⟩
    · have absolute : d.isAbsolute = (pre.head? == some []) := by
        rw [← (ends proper).isAbsolute]
        cases isAbsolute : d.isAbsolute with
        | true => exact (isAbsolute_join isAbsolute).symm
        | false =>
          exact (Anchoring.isAbsolute_join_of_relative (isAbsolute_ofString proper.text) isAbsolute).symm
      obtain ⟨filled, -, found⟩ := find_eq_ok.mp found
      rw [absolute] at found
      rcases pieces_of_lead lead filled with own | own
      · rw [own] at found
        exact walk_through leads.there List.all_nil (by rwa [List.append_nil])
      · rw [own] at found
        exact walk_through leads.there (show [[]].all (·.isEmpty) from rfl) found
  obtain ⟨left, goesOn⟩ := ways
  have unfollowed : followLast = false ∨ (t.isDirectoryAt P → ¬ longestName < (utf8 name).length →
      ∀ path, t.node? (P ++ [utf8 name]) ≠ some (.link path)) := by
    cases followLast with
    | false => exact .inl rfl
    | true => exact .inr fun _ _ => stays rfl
  rw [(ends proper).find, goesOn _ _ proper.ne_nil, walk_last proper unfollowed] at found
  split at found
  · cases found
  · split at found
    · cases found
    · split at found
      · cases found
      · exact (Except.ok.inj found).symm

/-! ## New directories -/

/-- Whether directories have come to stand at free places, and nothing else has changed. -/
def Added (t u : FileTree) : Prop :=
  ∀ q, u.node? q = t.node? q ∨ t.node? q = none ∧ u.node? q = some .directory

theorem Added.trans (first : Added t u) (second : Added u v) : Added t v := by
  intro q
  rcases second q with same | ⟨free, made⟩
  · rw [same]
    exact first q
  · rcases first q with same | ⟨free', made'⟩
    · exact .inr ⟨same ▸ free, made⟩
    · rw [free] at made'
      cases made'

theorem Added.upkeep (added : Added t u) : Upkeep t u := by
  intro q
  rcases added q with same | ⟨free, made⟩
  · exact .inl same
  · exact .inr ⟨free ▸ inert_none, by simp [made]⟩

theorem Added.stays (added : Added t u) (there : t.node? Q ≠ none) : u.node? Q = t.node? Q :=
  (added Q).resolve_right fun made => there made.1

theorem added_set (free : t.node? Q = none) (parent : t.isDirectoryAt Q.dropLast) (grown : Grown t.node?) :
    (t.set Q .directory).node? = View.put t.node? Q (some .directory) ∧ Added t (t.set Q .directory) ∧
      Grown (t.set Q .directory).node? := by
  have writable : View.writable t.node? Q := by
    rw [View.writable, View.directory, free]
    exact parent
  have view : (t.set Q .directory).node? = View.put t.node? Q (some .directory) :=
    node?_set (ne_root_of_writable writable)
  refine ⟨view, fun q => ?_, grown.set writable⟩
  rw [view]
  by_cases same : q = Q
  · subst same
    exact .inr ⟨free, View.put_self ..⟩
  · exact .inl (View.put_other same)

/-- What the making of a directory leaves: directories at free places, and the one that was to be made
if it is said to be there. -/
structure Made (t : FileTree) (here : Place) (p : Path) (made : FileTree × Except Errno Unit) : Prop where
  added : Added t made.1
  grown : Grown made.1.node?
  there : made.2 = .ok () → p.bytes = [] ∨ made.1.isDirectory here p

theorem createDirectory_made {p : Path} (grown : Grown t.node?) (is : t.createDirectory here p = .ok u) :
    Made t here p (u, .ok ()) := by
  obtain ⟨q, found, rfl⟩ := createDirectory_eq_ok is
  obtain ⟨isNode, parent, -⟩ := find_sound grown found
  have free : ∀ q', q <+: q' → t.node? q' = none := fun _ => free_below grown isNode.symm
  obtain ⟨view, added, grown'⟩ := added_set isNode.symm parent grown
  have same : SameOutside q t (t.set q .directory) := by
    intro q' outside
    rw [view]
    exact .inl (View.put_other fun same => outside (same ▸ List.prefix_refl q'))
  have made : (t.set q .directory).node? q = some .directory := by rw [view, View.put_self]
  have leads : (t.set q .directory).find here p true = .ok ⟨q, some .directory⟩ := by
    obtain ⟨filled, short, found⟩ := find_eq_ok.mp found
    obtain ⟨left, goesOn⟩ := walk_home free same made found
    have onward := goesOn true []
    rw [List.append_nil, walk, made] at onward
    exact find_eq_ok.mpr ⟨filled, short, onward⟩
  refine ⟨added, grown', fun _ => .inr ?_⟩
  simp [isDirectory, stat, existing, leads, bind, Except.bind, Functor.map, Except.map, Except.toOption,
    Node.isDirectory]

theorem Made.unmade {p : Path} (grown : Grown t.node?) {answer : Except Errno Unit}
    (there : answer = .ok () → p.bytes = [] ∨ t.isDirectory here p) : Made t here p (t, answer) :=
  ⟨fun _ => .inl rfl, grown, there⟩

theorem Made.failed {p : Path} (grown : Grown t.node?) (e : Errno) : Made t here p (t, .error e) :=
  .unmade grown nofun

theorem Made.after {p : Path} {made : FileTree × Except Errno Unit} (added : Added t u)
    (rest : Made u here p made) : Made t here p made :=
  ⟨added.trans rest.added, rest.grown, rest.there⟩

theorem createWithParents_made (grown : Grown t.node?) (p : Path) (depth : Nat) :
    Made t here p (t.createWithParents here p depth) := by
  have checked {t : FileTree} {p : Path} (grown : Grown t.node?) (e : Errno) :
      Made t here p (if t.isDirectory here p then (t, .ok ()) else (t, .error e)) := by
    split
    · rename_i there
      exact .unmade grown fun _ => .inr there
    · exact .failed grown _
  induction depth generalizing t p with
  | zero => exact .failed grown _
  | succ depth ih =>
    unfold createWithParents
    split
    · rename_i empty
      exact .unmade grown fun _ => .inl empty
    · split
      · rename_i made
        exact createDirectory_made grown made
      · split
        · exact .failed grown _
        · rename_i parent isParent
          have first := ih grown parent
          split
          · rename_i isFirst
            rw [isFirst] at first
            exact .after first.added (.failed first.grown _)
          · rename_i isFirst
            rw [isFirst] at first
            refine .after first.added ?_
            split
            · rename_i made
              exact createDirectory_made first.grown made
            · exact checked first.grown _
      · exact checked grown _

theorem createDirectories_made (grown : Grown t.node?) (p : Path) :
    Made t here p (t.createDirectories here p) :=
  createWithParents_made grown p _

/-- What is a directory for a path is one at the place that the path leads to. -/
theorem leads_of_isDirectory {p : Path} (grown : Grown t.node?) (there : t.isDirectory here p) :
    ∃ P, Leads t here p P := by
  cases found : t.find here p true with
  | error e => simp [isDirectory, stat, existing, found, bind, Except.bind, Functor.map, Except.map,
      Except.toOption] at there
  | ok target =>
    obtain ⟨P, node⟩ := target
    cases node with
    | none => simp [isDirectory, stat, existing, found, bind, Except.bind, Functor.map, Except.map,
        Except.toOption] at there
    | some node =>
      have isDirectory : node.isDirectory := by
        simpa [isDirectory, stat, existing, found, bind, Except.bind, Functor.map, Except.map,
          Except.toOption] using there
      have isNode : some node = t.node? P := (find_sound grown found).node
      refine ⟨P, ?_, .inr ⟨node, found⟩⟩
      rw [FileTree.isDirectoryAt, ← isNode]
      exact isDirectory

end BugHunt.Proofs.Grounds
