/-! # Engine builtins

The functions and methods that the engine provides. Some names are in both lists.
-/

namespace Gsc

def builtinFunctions : List String :=
  ["abs", "acos", "ambientplay", "ambientstop", "angleclamp180", "anglestoforward",
    "anglestoright", "anglestoup", "announcement", "asin", "assert", "assertex", "assertmsg",
    "atan", "bullettrace", "bullettracepassed", "ceil", "closer", "cos", "distance",
    "distance2d", "distancesquared", "earthquake", "exitlevel", "float", "floor",
    "getallnodes", "getarraykeys", "getdvar", "getdvarfloat", "getdvarint", "getent",
    "getentarray", "getentbynum", "getfirstarraykey", "getlastarraykey", "getmatchrulesdata",
    "getnextarraykey", "getnode", "getnodearray", "getnumparts", "getstarttime", "getsubstr",
    "getteamplayersalive", "getteamscore", "gettime", "getweaponmodel", "int", "iprintln",
    "iprintlnbold", "isalive", "isarray", "isdefined", "isfloat", "isint", "isplayer",
    "isstring", "issubstr", "isvector", "length", "lengthsquared", "loadfx", "logprint",
    "makedvarserverinfo", "map_restart", "max", "min", "newhudelem", "newclienthudelem",
    "newteamhudelem", "physicstrace", "playfx", "playfxontag", "playloopedfx",
    "playsoundatpos", "precacheitem", "precachemenu", "precachemodel", "precacheshader",
    "precachestring", "print", "println", "radiusdamage", "randomfloat", "randomfloatrange",
    "randomint", "randomintrange", "setdvar", "setdvarifuninitialized", "setexpfog",
    "setteamscore", "sin", "sighttracepassed", "spawn", "spawnfx", "spawnstruct", "sqrt",
    "squared", "strtok", "tan", "tolower", "toupper", "triggerfx", "updateclientnames",
    "vectordot", "vectorcross", "vectornormalize", "vectortoangles", "visionsetnaked"]

def builtinMethods : List String :=
  ["allowads", "allowjump", "allowsprint", "attach", "attackbuttonpressed", "clearperks",
    "closeingamemenu", "closemenu", "delete", "detach", "disableweapons", "enableweapons",
    "freezecontrols", "getcurrentweapon", "getentitynumber", "getguid", "getorigin",
    "getplayerangles", "getstance", "getweaponslistall", "giveweapon", "givemaxammo",
    "hasperk", "hasweapon", "hide", "iprintln", "iprintlnbold", "isonground", "linkto",
    "moveto", "notsolid", "openmenu", "playlocalsound", "playsound", "rotateto",
    "setactionslot", "setcarddisplayslot", "setclientdvar", "setclientomnvar", "setcontents",
    "setmodel", "setorigin", "setperk", "setplayerangles", "setrank", "setspawnweapon",
    "setstance", "settext", "setvalue", "setshader", "show", "solid", "spawn", "suicide",
    "switchtoweapon", "takeallweapons", "takeweapon", "unlink", "unsetperk", "usebuttonpressed"]

def isBuiltin (onObject : Bool) (name : String) : Bool :=
  if onObject then builtinMethods.contains name else builtinFunctions.contains name

end Gsc
