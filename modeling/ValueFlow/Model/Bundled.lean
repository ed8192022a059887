/-
  ValueFlow.Model.Bundled

  The models that come with the program: methods of the standard library.
-/

import ValueFlow.Model.Store

namespace ValueFlow
namespace ModelStore

/-- Lines of the table of flow models. -/
def bundledFlowLines : List String :=
  [
    "namespace,type,subtypes,name,signature,ext,input,output,kind,provenance",
    "java.lang,String,false,String,(String),,Argument[0],Argument[-1],value,manual",
    "java.lang,String,false,concat,(String),,Argument[-1],ReturnValue,taint,manual",
    "java.lang,String,false,concat,(String),,Argument[0],ReturnValue,taint,manual",
    "java.lang,String,false,toLowerCase,,,Argument[-1],ReturnValue,taint,manual",
    "java.lang,String,false,toUpperCase,,,Argument[-1],ReturnValue,taint,manual",
    "java.lang,String,false,trim,(),,Argument[-1],ReturnValue,taint,manual",
    "java.lang,String,false,strip,(),,Argument[-1],ReturnValue,taint,manual",
    "java.lang,String,false,substring,,,Argument[-1],ReturnValue,taint,manual",
    "java.lang,String,false,replace,,,Argument[-1],ReturnValue,taint,manual",
    "java.lang,String,false,replace,,,Argument[1],ReturnValue,taint,manual",
    "java.lang,String,false,intern,(),,Argument[-1],ReturnValue,value,manual",
    "java.lang,String,false,toString,(),,Argument[-1],ReturnValue,value,manual",
    "java.lang,String,false,valueOf,(Object),,Argument[0],ReturnValue,taint,manual",
    "java.lang,String,false,join,,,Argument[0..1],ReturnValue,taint,manual",
    "java.lang,String,false,format,\"(String,Object[])\",,Argument[0..1],ReturnValue,taint,manual",
    "java.lang,String,false,getBytes,,,Argument[-1],ReturnValue,taint,manual",
    "java.lang,String,false,toCharArray,(),,Argument[-1],ReturnValue,taint,manual",
    "java.lang,String,false,getChars,,,Argument[-1],Argument[2],taint,manual",
    "java.lang,String,false,split,,,Argument[-1],ReturnValue,taint,manual",
    "java.lang,Object,true,toString,(),,Argument[-1],ReturnValue,taint,manual",
    "java.lang,StringBuilder,true,StringBuilder,(String),,Argument[0],Argument[-1],taint,manual",
    "java.lang,StringBuilder,true,append,,,Argument[0],Argument[-1],taint,manual",
    "java.lang,StringBuilder,true,append,,,Argument[-1],ReturnValue,value,manual",
    "java.lang,StringBuilder,true,insert,\"(int,String)\",,Argument[1],Argument[-1],taint,manual",
    "java.lang,StringBuilder,true,toString,(),,Argument[-1],ReturnValue,taint,manual",
    "java.lang,CharSequence,true,toString,(),,Argument[-1],ReturnValue,taint,manual",
    "java.lang,CharSequence,true,subSequence,,,Argument[-1],ReturnValue,taint,manual",
    "java.lang,System,false,arraycopy,,,Argument[0],Argument[2],taint,manual",
    "java.util,Objects,false,requireNonNull,,,Argument[0],ReturnValue,value,manual",
    "java.util,Objects,false,toString,,,Argument[0],ReturnValue,taint,manual",
    "java.util,Optional,false,of,(Object),,Argument[0].Element,ReturnValue.Element,value,manual",
    "java.util,Base64$Encoder,false,encodeToString,(byte[]),,Argument[0],ReturnValue,taint,manual",
    "java.util,Base64$Decoder,false,decode,(String),,Argument[0],ReturnValue,taint,manual",
    "java.io,File,false,File,,,Argument[0..1],Argument[-1],taint,manual",
    "java.io,File,true,getAbsolutePath,(),,Argument[-1],ReturnValue,taint,manual",
    "java.io,File,true,getAbsoluteFile,(),,Argument[-1],ReturnValue,taint,manual",
    "java.io,File,true,getCanonicalPath,(),,Argument[-1],ReturnValue,taint,manual",
    "java.io,File,true,getCanonicalFile,(),,Argument[-1],ReturnValue,taint,manual",
    "java.io,File,true,getName,(),,Argument[-1],ReturnValue,taint,manual",
    "java.io,File,true,getPath,(),,Argument[-1],ReturnValue,taint,manual",
    "java.io,File,true,toPath,(),,Argument[-1],ReturnValue,taint,manual",
    "java.io,File,true,toURI,(),,Argument[-1],ReturnValue,taint,manual",
    "java.nio.file,Path,true,toFile,(),,Argument[-1],ReturnValue,taint,manual",
    "java.nio.file,Path,true,resolve,,,Argument[-1..0],ReturnValue,taint,manual",
    "java.nio.file,Path,true,normalize,(),,Argument[-1],ReturnValue,taint,manual",
    "java.nio.file,Paths,true,get,,,Argument[0..1],ReturnValue,taint,manual",
    "java.net,URI,false,URI,(String),,Argument[0],Argument[-1],taint,manual",
    "java.net,URI,false,create,(String),,Argument[0],ReturnValue,taint,manual",
    "java.net,URI,false,toURL,(),,Argument[-1],ReturnValue,taint,manual",
    "java.util,List,true,get,(int),,Argument[-1].Element,ReturnValue,value,manual",
    "java.util,Collection,true,add,,,Argument[0],Argument[-1].Element,value,manual"]

/-- Lines of the table of sink models. -/
def bundledSinkLines : List String :=
  [
    "namespace,type,subtypes,name,signature,ext,input,kind,provenance",
    "java.sql,Statement,true,execute,,,Argument[0],sql,manual",
    "java.sql,Statement,true,executeQuery,,,Argument[0],sql,manual",
    "java.sql,Statement,true,executeUpdate,,,Argument[0],sql,manual",
    "java.sql,Statement,true,executeLargeUpdate,,,Argument[0],sql,manual",
    "java.sql,Statement,true,addBatch,,,Argument[0],sql,manual",
    "java.sql,Connection,true,prepareStatement,,,Argument[0],sql,manual",
    "java.sql,Connection,true,prepareCall,,,Argument[0],sql,manual",
    "java.lang,Runtime,true,exec,,,Argument[0],command-injection,manual",
    "java.lang,ProcessBuilder,false,ProcessBuilder,,,Argument[0],command-injection,manual",
    "java.lang,ProcessBuilder,false,command,,,Argument[0],command-injection,manual",
    "java.io,FileInputStream,true,FileInputStream,,,Argument[0],create-file,manual",
    "java.io,FileOutputStream,true,FileOutputStream,,,Argument[0],create-file,manual",
    "java.io,FileWriter,true,FileWriter,,,Argument[0],create-file,manual",
    "java.io,PrintStream,true,println,,,Argument[0],logging,manual",
    "java.io,PrintStream,true,print,,,Argument[0],logging,manual",
    "java.nio.file,Files,false,write,,,Argument[0..1],create-file,manual",
    "java.nio.file,Files,false,newBufferedWriter,,,Argument[0],create-file,manual",
    "java.net,URL,false,URL,(String),,Argument[0],request-forgery,manual",
    "java.net,URL,false,openConnection,,,Argument[-1],request-forgery,manual",
    "java.lang,Class,false,forName,,,Argument[0],reflection,manual",
    "javax.script,ScriptEngine,true,eval,,,Argument[0],code-injection,manual",
    "java.util.logging,Logger,true,info,,,Argument[0],logging,manual",
    "java.util.logging,Logger,true,warning,,,Argument[0],logging,manual",
    "java.lang,System,false,getenv,,,ReturnValue,environment,manual"]

/-- The store of the bundled tables. -/
def bundled : Except ModelError ModelStore := do
  let store ← empty.addFlows "<bundled flows>" ("\n".intercalate bundledFlowLines)
  store.addSinks "<bundled sinks>" ("\n".intercalate bundledSinkLines)

end ModelStore
end ValueFlow
