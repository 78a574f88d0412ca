import JavaSnippet.ClassPath.Basic
/-!
The part of the platform that snippets can use.
-/
namespace JavaSnippet.ClassPath

/-- A method of a table, by name and descriptor. -/
def entry (isStatic : Bool) (method : String × String) : Option MethodData :=
  match MethodType.parse method.2 with
  | .ok type => some ⟨method.1, type, isStatic⟩
  | .error _ => none

/-- A class of the platform, from its instance methods and its static methods. -/
def platformClass (name : ClassName) (superclass : Option ClassName) (interfaces : List ClassName)
    (isInterface : Bool) (onInstances onClass : List (String × String)) : ClassData :=
  ⟨name, superclass, interfaces, isInterface,
    onInstances.filterMap (entry false) ++ onClass.filterMap (entry true)⟩

def exceptionConstructors : List (String × String) :=
  [("<init>", "()V"), ("<init>", "(Ljava/lang/String;)V"),
    ("<init>", "(Ljava/lang/String;Ljava/lang/Throwable;)V")]

def exceptionClass (superclass name : ClassName) : ClassData :=
  platformClass name (some superclass) [] false exceptionConstructors []

def platformClasses : List ClassData :=
  [platformClass .object none [] false
      [("<init>", "()V"), ("toString", "()Ljava/lang/String;"), ("hashCode", "()I"),
        ("equals", "(Ljava/lang/Object;)Z"), ("getClass", "()Ljava/lang/Class;")] [],
    platformClass .string (some .object) [.serializable, .comparable, .charSequence] false
      [("<init>", "()V"), ("<init>", "(Ljava/lang/String;)V"), ("length", "()I"),
        ("isEmpty", "()Z"), ("concat", "(Ljava/lang/String;)Ljava/lang/String;"),
        ("substring", "(I)Ljava/lang/String;"), ("substring", "(II)Ljava/lang/String;"),
        ("indexOf", "(Ljava/lang/String;)I"), ("contains", "(Ljava/lang/CharSequence;)Z"),
        ("startsWith", "(Ljava/lang/String;)Z"), ("toUpperCase", "()Ljava/lang/String;"),
        ("toLowerCase", "()Ljava/lang/String;"), ("trim", "()Ljava/lang/String;")]
      [("valueOf", "(Z)Ljava/lang/String;"), ("valueOf", "(I)Ljava/lang/String;"),
        ("valueOf", "(J)Ljava/lang/String;"),
        ("valueOf", "(Ljava/lang/Object;)Ljava/lang/String;")],
    platformClass .charSequence (some .object) [] true
      [("length", "()I"), ("toString", "()Ljava/lang/String;")] [],
    platformClass .comparable (some .object) [] true [] [],
    platformClass .serializable (some .object) [] true [] [],
    platformClass .stringBuilder (some .object) [.serializable, .charSequence] false
      [("<init>", "()V"), ("<init>", "(Ljava/lang/String;)V"),
        ("append", "(Ljava/lang/String;)Ljava/lang/StringBuilder;"),
        ("append", "(Ljava/lang/Object;)Ljava/lang/StringBuilder;"),
        ("append", "(Z)Ljava/lang/StringBuilder;"), ("append", "(I)Ljava/lang/StringBuilder;"),
        ("append", "(J)Ljava/lang/StringBuilder;"), ("length", "()I"),
        ("reverse", "()Ljava/lang/StringBuilder;"), ("toString", "()Ljava/lang/String;")] [],
    platformClass .number (some .object) [.serializable] false
      [("intValue", "()I"), ("longValue", "()J")] [],
    ⟨.integer, some .number, [.comparable], false,
      [("valueOf", "(I)Ljava/lang/Integer;"), ("parseInt", "(Ljava/lang/String;)I"),
        ("toString", "(I)Ljava/lang/String;")].filterMap (entry true) ++
        [("intValue", "()I")].filterMap (entry false)⟩,
    ⟨.long, some .number, [.comparable], false,
      [("valueOf", "(J)Ljava/lang/Long;"), ("parseLong", "(Ljava/lang/String;)J"),
        ("toString", "(J)Ljava/lang/String;")].filterMap (entry true) ++
        [("longValue", "()J")].filterMap (entry false)⟩,
    ⟨.boolean, some .object, [.serializable, .comparable], false,
      [("valueOf", "(Z)Ljava/lang/Boolean;"),
        ("parseBoolean", "(Ljava/lang/String;)Z")].filterMap (entry true) ++
        [("booleanValue", "()Z")].filterMap (entry false)⟩,
    platformClass .math (some .object) [] false []
      [("abs", "(I)I"), ("abs", "(J)J"), ("max", "(II)I"), ("max", "(JJ)J"), ("min", "(II)I"),
        ("min", "(JJ)J"), ("addExact", "(II)I"), ("addExact", "(JJ)J"),
        ("multiplyExact", "(II)I"), ("multiplyExact", "(JJ)J")],
    platformClass .system (some .object) [] false []
      [("currentTimeMillis", "()J"), ("nanoTime", "()J"),
        ("identityHashCode", "(Ljava/lang/Object;)I"),
        ("getProperty", "(Ljava/lang/String;)Ljava/lang/String;")],
    platformClass .classObject (some .object) [.serializable] false
      [("getName", "()Ljava/lang/String;"), ("getSimpleName", "()Ljava/lang/String;")] [],
    platformClass .classLoader (some .object) [] false
      [("loadClass", "(Ljava/lang/String;)Ljava/lang/Class;")] [],
    platformClass .throwable (some .object) [.serializable] false
      (exceptionConstructors ++
        [("getMessage", "()Ljava/lang/String;"), ("getCause", "()Ljava/lang/Throwable;")]) [],
    exceptionClass .throwable .exception,
    exceptionClass .throwable .error,
    exceptionClass .exception .runtimeException,
    exceptionClass .runtimeException .arithmeticException,
    exceptionClass .runtimeException .illegalArgumentException,
    exceptionClass .runtimeException .illegalStateException,
    exceptionClass .runtimeException .unsupportedOperationException]

def platform : ClassPath := ⟨platformClasses⟩

end JavaSnippet.ClassPath
