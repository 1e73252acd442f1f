import ImageRecipe.Context.Message
import ImageRecipe.Proofs.Text.QuotedReading

/-!
# Messages are told by their texts

The text of a message says which message it is: its first words what it is about, then the quoted path, and
what follows the path the rest of it. No path or name can make one message look like another, whatever
quotation marks or apostrophes it holds. Only the message of a whole run that failed does not say everything,
for the failure in it shows paths as plain text.

* `Topic` — what the words before the first path say;
* `Topic.message?` — the message that such words, a path and the text after it make.

Principal results: `Topic.find?_words` — no topic has the words of another; `parts_eq_of_text` — texts are cut
into their parts in one way; `message?_parts`, `text_inj` — the parts make the message again.
-/

set_option autoImplicit false

namespace ImageRecipe.Message

/-! ## The parts of a text -/

/-- What a message is about, as far as its first words tell. -/
inductive Topic where
  | excluded
  | source
  | sources
  | addingFile
  | addingDirectory
  | fileFailed
  | directoryFailed
  | danglingLink
  | linkedDirectory
  | special
  | scriptKept
  | contextWritten
  | contextFailed
  deriving DecidableEq

/-- The words before the first path. -/
def Topic.words : Topic → String
  | excluded => "Not importing excluded source "
  | source => "Source "
  | sources => "Sources "
  | addingFile => "Adding file "
  | addingDirectory => "Adding directory "
  | fileFailed => "Could not append file to tar: "
  | directoryFailed => "Could not append directory to tar: "
  | danglingLink => "Skipping dangling symlink "
  | linkedDirectory => "Skipping symlinked directory "
  | special => "Skipping special file "
  | scriptKept => "Kept temporary Dockerfile "
  | contextWritten => "Build context written to "
  | contextFailed => "Failed to write build context "

/-- All topics. -/
def Topic.all : List Topic :=
  [excluded, source, sources, addingFile, addingDirectory, fileFailed, directoryFailed, danglingLink,
    linkedDirectory, special, scriptKept, contextWritten, contextFailed]

/-- What a message is about. -/
def topic : Message → Topic
  | excluded _ => .excluded
  | unimportable _ | nameless _ | shadowed _ _ => .source
  | clash _ _ _ => .sources
  | addingFile _ _ => .addingFile
  | addingDirectory _ _ => .addingDirectory
  | fileFailed _ _ => .fileFailed
  | directoryFailed _ _ => .directoryFailed
  | danglingLink _ => .danglingLink
  | linkedDirectory _ => .linkedDirectory
  | special _ => .special
  | scriptKept _ => .scriptKept
  | contextWritten _ => .contextWritten
  | contextFailed _ _ => .contextFailed

/-- The first path of a message. -/
def path : Message → Path
  | excluded path | unimportable path | nameless path | shadowed path _ | clash path _ _
  | addingFile path _ | addingDirectory path _ | fileFailed path _ | directoryFailed path _
  | danglingLink path | linkedDirectory path | special path | scriptKept path | contextWritten path
  | contextFailed path _ => path

/-- What follows the first path. -/
def tail : Message → String
  | unimportable _ => " is neither a file nor a directory, leaving it as is"
  | nameless _ => " has no base name, leaving it as is"
  | shadowed _ name =>
    " is archived as " ++ entryName name ++ " and is shadowed by the generated Dockerfile"
  | clash _ later name => " and " ++ later.quoted ++ " are both archived as " ++ entryName name
  | addingFile _ name | addingDirectory _ name => " as " ++ entryName name
  | fileFailed _ name | directoryFailed _ name => ":" ++ name
  | contextFailed _ failure => ": " ++ failure.message
  | excluded _ | danglingLink _ | linkedDirectory _ | special _ | scriptKept _ | contextWritten _ => ""

theorem text_eq (message : Message) :
    message.text = message.topic.words ++ message.path.quoted ++ message.tail := by
  cases message with
  | excluded _ | danglingLink _ | linkedDirectory _ | special _ | scriptKept _ | contextWritten _ =>
    exact String.append_empty.symm
  | unimportable _ | nameless _ => rfl
  | addingFile _ _ | addingDirectory _ _ | fileFailed _ _ | directoryFailed _ _ | contextFailed _ _ =>
    exact String.append_assoc
  | shadowed _ _ =>
    show _ = _ ++ (_ ++ _ ++ _)
    rw [← String.append_assoc, ← String.append_assoc]
    rfl
  | clash _ _ _ =>
    show _ = _ ++ (_ ++ _ ++ _ ++ _)
    rw [← String.append_assoc, ← String.append_assoc, ← String.append_assoc]
    rfl

/-- **No topic has the words of another.** -/
theorem Topic.find?_words (topic : Topic) : all.find? (·.words = topic.words) = some topic := by
  cases topic <;> decide

theorem Topic.words_injective {a b : Topic} (h : a.words = b.words) : a = b := by
  have found := find?_words a
  rw [h, find?_words b] at found
  exact (Option.some.inj found).symm

theorem Topic.words_unquoted (topic : Topic) : topic.words.toList.all (· ≠ '"') = true := by
  cases topic <;> decide

/-- A text is cut at its first quotation mark, and behind the path that this one opens. -/
theorem cut_text (message : Message) :
    message.text.toList.takeWhile (· ≠ '"') = message.topic.words.toList ∧
      Quoted.read? (message.text.toList.dropWhile (· ≠ '"')) =
        some (message.path.bytes, message.tail.toList) := by
  have whole : message.text.toList =
      message.topic.words.toList ++ (message.path.quoted.toList ++ message.tail.toList) := by
    rw [text_eq, String.toList_append, String.toList_append, List.append_assoc]
  obtain ⟨rest, opened⟩ : ∃ rest, message.path.quoted.toList ++ message.tail.toList = '"' :: rest := by
    simp [Path.quoted, Quoted.quote]
  have words := List.all_eq_true.1 message.topic.words_unquoted
  constructor
  · rw [whole, List.takeWhile_append_of_pos words, opened, List.takeWhile_cons_of_neg (by decide),
      List.append_nil]
  · rw [whole, List.dropWhile_append_of_pos words, opened, List.dropWhile_cons_of_neg (by decide),
      ← opened]
    exact Quoted.read?_quote _ _

/-- **Texts are cut into their parts in one way.** -/
theorem parts_eq_of_text {a b : Message} (h : a.text = b.text) :
    a.topic = b.topic ∧ a.path = b.path ∧ a.tail = b.tail := by
  obtain ⟨words, rest⟩ := cut_text a
  obtain ⟨words', rest'⟩ := cut_text b
  rw [h, words', String.toList_inj] at words
  rw [h, rest', Option.some.injEq, Prod.mk.injEq, String.toList_inj] at rest
  exact ⟨(Topic.words_injective words).symm, congrArg Path.mk rest.1.symm, rest.2.symm⟩

/-! ## The message that the parts make -/

/-- The name between apostrophes that a text has between a beginning and an end. -/
def nameBetween (front back text : String) : String :=
  String.ofList ((text.toList.drop (front.toList.length + 1)).take
    (text.toList.length - front.toList.length - back.toList.length - 2))

theorem nameBetween_entryName (front name back : String) :
    nameBetween front back (front ++ entryName name ++ back) = name := by
  have spelt : (front ++ entryName name ++ back).toList =
      (front.toList ++ ['\'']) ++ (name.toList ++ ('\'' :: back.toList)) := by
    simp [entryName]
  have skipped : front.toList.length + 1 = (front.toList ++ ['\'']).length := by
    rw [List.length_append, List.length_singleton]
  have room : ((front.toList ++ ['\'']) ++ (name.toList ++ ('\'' :: back.toList))).length -
      front.toList.length - back.toList.length - 2 = name.toList.length := by
    simp only [List.length_append, List.length_cons, List.length_nil]
    omega
  rw [nameBetween, spelt, room, skipped, List.drop_left, List.take_left, String.ofList_toList]

theorem nameBetween_of_empty (front name : String) :
    nameBetween front "" (front ++ entryName name) = name := by
  rw [← String.append_empty (s := front ++ entryName name), nameBetween_entryName]

/-- The message about one source, with the text that follows its path. -/
def ofSource (path : Path) (tail : String) : Message :=
  if tail = " is neither a file nor a directory, leaving it as is" then .unimportable path
  else if tail = " has no base name, leaving it as is" then .nameless path
  else .shadowed path
    (nameBetween " is archived as " " and is shadowed by the generated Dockerfile" tail)

/-- The message about two sources, with the text that follows the path of the first. -/
def ofSources? (earlier : Path) (tail : String) : Option Message :=
  (Quoted.read? (tail.toList.drop " and ".toList.length)).map fun (later, rest) =>
    .clash earlier ⟨later⟩ (nameBetween " are both archived as " "" (String.ofList rest))

/-- The message of a topic, with a path and the text that follows it, if they say which. -/
def Topic.message? : Topic → Path → String → Option Message
  | excluded, path, _ => some (.excluded path)
  | source, path, tail => some (ofSource path tail)
  | sources, path, tail => ofSources? path tail
  | addingFile, path, tail => some (.addingFile path (nameBetween " as " "" tail))
  | addingDirectory, path, tail => some (.addingDirectory path (nameBetween " as " "" tail))
  | fileFailed, path, tail => some (.fileFailed path (String.ofList (tail.toList.drop 1)))
  | directoryFailed, path, tail => some (.directoryFailed path (String.ofList (tail.toList.drop 1)))
  | danglingLink, path, _ => some (.danglingLink path)
  | linkedDirectory, path, _ => some (.linkedDirectory path)
  | special, path, _ => some (.special path)
  | scriptKept, path, _ => some (.scriptKept path)
  | contextWritten, path, _ => some (.contextWritten path)
  | contextFailed, _, _ => none

theorem ofSource_tail {message : Message} (h : message.topic = .source) :
    ofSource message.path message.tail = message := by
  cases message with
  | unimportable path => exact if_pos rfl
  | nameless path =>
    have differs : " has no base name, leaving it as is" ≠
        " is neither a file nor a directory, leaving it as is" := by decide
    exact (if_neg differs).trans (if_pos rfl)
  | shadowed path name =>
    have begins : (shadowed path name).tail.toList.take 5 = " is a".toList := by
      show (" is archived as " ++ entryName name ++ _).toList.take 5 = _
      rw [String.append_assoc, String.toList_append, List.take_append_of_le_length (by decide)]
      rfl
    have differs {other : String} (h : other.toList.take 5 ≠ " is a".toList) :
        (shadowed path name).tail ≠ other := by
      rintro rfl
      exact h begins
    unfold ofSource
    rw [if_neg (differs (by decide)), if_neg (differs (by decide))]
    exact congrArg (shadowed path) (nameBetween_entryName _ _ _)
  | _ => cases h

theorem ofSources?_tail (earlier later : Path) (name : String) :
    ofSources? earlier (clash earlier later name).tail = some (clash earlier later name) := by
  have opened : (clash earlier later name).tail.toList.drop " and ".toList.length =
      later.quoted.toList ++ (" are both archived as " ++ entryName name).toList := by
    show (" and " ++ later.quoted ++ _ ++ _).toList.drop _ = _
    rw [String.append_assoc, String.append_assoc, String.toList_append, List.drop_left,
      String.toList_append]
  rw [ofSources?, opened, Path.quoted, Quoted.read?_quote, Option.map_some]
  show some (clash earlier later (nameBetween _ "" (String.ofList (String.toList _)))) = _
  rw [String.ofList_toList, nameBetween_of_empty]

/-- **The parts of a text make the message again.** -/
theorem message?_parts {message : Message} (h : message.topic ≠ .contextFailed) :
    message.topic.message? message.path message.tail = some message := by
  have after (name : String) : String.ofList ((":" ++ name).toList.drop 1) = name := by
    rw [String.toList_append]
    exact String.ofList_toList
  cases message with
  | excluded _ | danglingLink _ | linkedDirectory _ | special _ | scriptKept _ | contextWritten _ => rfl
  | unimportable _ | nameless _ | shadowed _ _ => exact congrArg some (ofSource_tail rfl)
  | clash earlier later name => exact ofSources?_tail earlier later name
  | addingFile path name =>
    exact congrArg (fun name => some (addingFile path name)) (nameBetween_of_empty " as " name)
  | addingDirectory path name =>
    exact congrArg (fun name => some (addingDirectory path name)) (nameBetween_of_empty " as " name)
  | fileFailed path name => exact congrArg (fun name => some (fileFailed path name)) (after name)
  | directoryFailed path name =>
    exact congrArg (fun name => some (directoryFailed path name)) (after name)
  | contextFailed _ _ => exact absurd rfl h

/-- **No two messages have the same text**, unless a whole run has failed. -/
theorem text_inj {a b : Message} (hread : a.topic ≠ .contextFailed) (h : a.text = b.text) : a = b := by
  obtain ⟨topic, path, tail⟩ := parts_eq_of_text h
  have made := message?_parts hread
  rw [topic, path, tail, message?_parts (topic ▸ hread)] at made
  exact (Option.some.inj made).symm

end ImageRecipe.Message
