import Refactor.Node.Alloc

/-!
Drafts of new nodes: an id made up for each, no white space before it and no markers.
-/

namespace Refactor

namespace Draft

/-- A new node of that shape. -/
def fresh (s : Shape Draft) : Draft := .mk {} s

def compilationUnit (path : String) (package : Option String) (imports types : List Draft) :
    Draft :=
  fresh (.compilationUnit path (package.map fun name => fresh (.package name)) imports types)

def block (statements : List Draft) : Draft := fresh (.block statements)

/-- A class without interfaces, with the members as its body. -/
def classDecl (modifiers : List Modifier) (name : String) (superclass : Option Draft)
    (members : List Draft) (classType : Option String) : Draft :=
  fresh (.classDecl modifiers name superclass [] (block members) classType)

def namedVariable (name : String) (initializer : Option Draft) : Draft :=
  fresh (.namedVariable name initializer)

/-- A declaration of one variable. -/
def variableDecl (modifiers : List Modifier) (type : Option Draft) (name : String)
    (initializer : Option Draft) : Draft :=
  fresh (.variableDecls modifiers type [namedVariable name initializer])

end Draft

end Refactor
